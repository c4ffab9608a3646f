import FormalLanguages.CommandLine.Samples

/-! # Command-line arguments

An option is written `--name value`, `--name=value`, `-n value`, `-nvalue` or `-n=value`, and may
stand before or after the operand; after `--` everything is an operand. A value that is an argument
of its own must not look like an option. The reading of arguments ends at a request for help or for
the version, so that nothing after it can be wrong. -/

namespace FormalLanguages.CommandLine

/-- An **option** that the command line knows. -/
inductive Switch where
  /-- Asks for an explanation of the usage. -/
  | help
  /-- Asks for the version. -/
  | version
  /-- Sets the seed of the random source. -/
  | seed
  /-- Sets how many words are derived. -/
  | amount
  /-- Sets how many rewritings each derivation may spend. -/
  | maxSteps
  /-- Names a word to decide. -/
  | word
  deriving DecidableEq

namespace Switch

/-- The long name of an option. -/
def name : Switch → String
  | help => "help"
  | version => "version"
  | seed => "seed"
  | amount => "amount"
  | maxSteps => "max-steps"
  | word => "word"

/-- The short name of an option. -/
def short : Switch → Option Char
  | help => some 'h'
  | version => some 'V'
  | amount => some 'n'
  | word => some 'w'
  | seed | maxSteps => none

/-- Whether an option asks for something instead of taking a value. -/
def isRequest : Switch → Bool
  | help | version => true
  | seed | amount | maxSteps | word => false

end Switch

/-- What can be wrong with the arguments. -/
inductive UsageFault where
  /-- No command was given. -/
  | missingCommand
  /-- An argument was not expected where it stands. -/
  | unexpected (argument : String)
  /-- An option was given without a value. -/
  | missingValue (switch : Switch)
  /-- A value was not of the kind that its option takes. -/
  | invalidValue (switch : Switch) (value : String)
  /-- The operand is not the name of a sample. -/
  | unknownSample (name : String)
  /-- An option that can be given once was given again. -/
  | repeated (switch : Switch)
  deriving DecidableEq

/-- The message of a fault. -/
def UsageFault.message : UsageFault → String
  | missingCommand => "a command is required"
  | unexpected argument => "unexpected argument '" ++ argument ++ "'"
  | missingValue switch => "a value is required for '--" ++ switch.name ++ "'"
  | invalidValue switch value => "invalid value '" ++ value ++ "' for '--" ++ switch.name ++ "'"
  | unknownSample name => "there is no grammar '" ++ name ++ "'"
  | repeated switch => "the option '--" ++ switch.name ++ "' cannot be used more than once"

/-- An **argument** after reading. -/
inductive Argument where
  /-- An option with its value. -/
  | option (switch : Switch) (value : String)
  /-- An option that asks for something. -/
  | request (switch : Switch)
  /-- An argument that is no option. -/
  | operand (value : String)
  deriving DecidableEq

/-- How an argument looks before it is known which options there are. -/
inductive Shape where
  /-- The mark after which everything is an operand. -/
  | separator
  /-- A long name, and the value after an equals sign. -/
  | long (name : String) (value? : Option String)
  /-- A short name and the text after it. -/
  | short (name : Char) (rest : List Char)
  /-- No option. -/
  | plain

/-- Splits a long option at its first equals sign. -/
def splitLong (text : List Char) : String × Option String :=
  match text.dropWhile (· != '=') with
  | [] => (String.ofList text, none)
  | _ :: value => (String.ofList (text.takeWhile (· != '=')), some (String.ofList value))

/-- How an argument looks. -/
def Shape.of (argument : String) : Shape :=
  match argument.toList with
  | ['-', '-'] => separator
  | '-' :: '-' :: text =>
    let (name, value?) := splitLong text
    long name value?
  | '-' :: name :: rest => short name rest
  | _ => plain

/-- The value of a short option: what comes after its name, without an equals sign. -/
def attachedValue? : List Char → Option String
  | [] => none
  | '=' :: value => some (String.ofList value)
  | value => some (String.ofList value)

/-- Whether an argument can be the value of the option before it. -/
def isPlain (argument : String) : Bool :=
  match Shape.of argument with
  | .plain => true
  | _ => false

/-- The option with a given long or short name, or the fault that there is none. -/
def findSwitch (switches : List Switch) (argument : String) (named : Switch → Bool) :
    Except UsageFault Switch :=
  match switches.find? named with
  | some switch => .ok switch
  | none => .error (.unexpected argument)

/-- Reads arguments one by one. `pending` is an option whose value is the next argument. With
`leading`, reading stops at the first operand and leaves it, with all that follows, as the
remainder; otherwise nothing remains. -/
def readArguments (switches : List Switch) (leading : Bool) (pending : Option Switch) :
    List String → Except UsageFault (List Argument × List String)
  | [] =>
    match pending with
    | none => .ok ([], [])
    | some switch => .error (.missingValue switch)
  | argument :: rest =>
    match pending with
    | some switch =>
      if isPlain argument then do
        let (arguments, remainder) ← readArguments switches leading none rest
        return (.option switch argument :: arguments, remainder)
      else .error (.missingValue switch)
    | none =>
      match Shape.of argument with
      -- the mark itself is no command, so it is left for the caller to refuse
      | .separator =>
        if leading then .ok ([], argument :: rest) else .ok (rest.map .operand, [])
      | .plain =>
        if leading then .ok ([], argument :: rest)
        else do
          let (arguments, remainder) ← readArguments switches leading none rest
          return (.operand argument :: arguments, remainder)
      | .long name value? => do
        let switch ← findSwitch switches argument (·.name == name)
        match switch.isRequest, value? with
        -- nothing after a request is read
        | true, none => return ([.request switch], [])
        | true, some _ => throw (.unexpected argument)
        | false, none => readArguments switches leading (some switch) rest
        | false, some value =>
          let (arguments, remainder) ← readArguments switches leading none rest
          return (.option switch value :: arguments, remainder)
      | .short name attached => do
        let switch ← findSwitch switches argument (·.short == some name)
        match switch.isRequest, attachedValue? attached with
        | true, _ => return ([.request switch], [])
        | false, none => readArguments switches leading (some switch) rest
        | false, some value =>
          let (arguments, remainder) ← readArguments switches leading none rest
          return (.option switch value :: arguments, remainder)

/-! ## Values -/

/-- A number written in decimal digits. -/
def readDigits (digits : List Char) : Option Nat :=
  if digits.isEmpty || !digits.all Char.isDigit then none
  else some (Nat.ofDigitChars 10 digits 0)

/-- A number below `2 ^ 64`, with or without a plus sign. -/
def readUnsigned (text : String) : Option Nat :=
  let value? := match text.toList with
    | '+' :: digits => readDigits digits
    | digits => readDigits digits
  value?.filter (· < UInt64.size)

/-- A number below `2 ^ 32`, with or without a sign; zero may be negative. -/
def readAmount (text : String) : Option Nat :=
  let value? := match text.toList with
    | '-' :: digits => (readDigits digits).filter (· == 0)
    | '+' :: digits => readDigits digits
    | digits => readDigits digits
  value?.filter (· < UInt32.size)

/-! ## Commands -/

/-- What the arguments of a command settle. -/
structure Settings where
  /-- The sample grammar to work on. -/
  sample : Option Sample := none
  /-- The seed of the random source. -/
  seed : Option Nat := none
  /-- How many words to derive. -/
  amount : Option Nat := none
  /-- How many rewritings each derivation may spend. -/
  maxSteps : Option Nat := none
  /-- The words to decide. -/
  words : List String := []

/-- A setting that can be made once. -/
def Settings.once {α : Type} (switch : Switch) (value : String) (before read : Option α) :
    Except UsageFault (Option α) :=
  match before, read with
  | some _, _ => .error (.repeated switch)
  | none, none => .error (.invalidValue switch value)
  | none, some a => .ok (some a)

/-- Takes one argument into account. Only a command that works on a sample takes an operand. -/
def Settings.add (takesSample : Bool) (s : Settings) : Argument → Except UsageFault Settings
  | .option .seed value => do
    return { s with seed := ← once .seed value s.seed (readUnsigned value) }
  | .option .amount value => do
    return { s with amount := ← once .amount value s.amount (readAmount value) }
  | .option .maxSteps value => do
    return { s with maxSteps := ← once .maxSteps value s.maxSteps (readUnsigned value) }
  | .option .word value => .ok { s with words := s.words ++ [value] }
  | .option .help _ | .option .version _ | .request _ => .ok s
  | .operand value =>
    match takesSample && s.sample.isNone, Sample.ofName? value with
    | false, _ => .error (.unexpected value)
    | true, none => .error (.unknownSample value)
    | true, some sample => .ok { s with sample := some sample }

/-- A **command** with everything it needs. -/
inductive Command where
  /-- Derive words from a sample grammar and show its automaton. -/
  | generate (sample : Sample) (amount maxSteps : Nat)
  /-- Show the sample automaton, its deterministic form and its grammar. -/
  | automaton (words : List String)
  /-- Place a sample grammar in the hierarchy. -/
  | classify (sample : Sample)
  /-- Bring a sample grammar into normal form. -/
  | normalForm (sample : Sample) (words : List String)

/-- What the command line asks for. -/
inductive Intent where
  /-- Explain the usage. -/
  | help
  /-- Tell the version. -/
  | version
  /-- Run a command, with a seed if one is given. -/
  | run (command : Command) (seed : Option Nat)

/-- What a command looks like: its own options, whether it takes a sample, and the command that
its settings make. -/
structure CommandForm where
  /-- The options of the command. -/
  switches : List Switch
  /-- Whether the command takes the name of a sample. -/
  takesSample : Bool
  /-- The command with given settings. -/
  make : Settings → Command

/-- The form of the command with a given name. -/
def CommandForm.ofName? : String → Option CommandForm
  | "generate" => some
    { switches := [.amount, .maxSteps]
      takesSample := true
      make := fun s =>
        .generate (s.sample.getD .regular) (s.amount.getD 5) (s.maxSteps.getD 1000) }
  | "automaton" => some
    { switches := [.word], takesSample := false, make := fun s => .automaton s.words }
  | "classify" => some
    { switches := [], takesSample := true, make := fun s => .classify (s.sample.getD .regular) }
  | "cnf" => some
    { switches := [.word]
      takesSample := true
      make := fun s => .normalForm (s.sample.getD .contextFree) s.words }
  | _ => none

/-- The request among arguments; only the last of them can be one. -/
def requestIn (arguments : List Argument) : Option Switch :=
  arguments.findSome? fun
    | .request switch => some switch
    | _ => none

/-- What is asked for after `help`: the usage as a whole or of one command. -/
def understandTopics : List String → Except UsageFault Intent
  | [] => .ok .help
  | topic :: rest =>
    if topic = "help" || (CommandForm.ofName? topic).isSome then
      match rest with
      | [] => .ok .help
      | unknown :: _ => .error (.unexpected unknown)
    else .error (.unexpected topic)

/-- **Understands** the arguments of the command line. A seed after the command takes the place of
a seed before it. -/
def understand (arguments : List String) : Except UsageFault Intent := do
  let (leading, remainder) ← readArguments [.help, .version, .seed] true none arguments
  -- values that were read before a request are still checked
  let outer ← leading.foldlM (Settings.add false) {}
  match requestIn leading with
  | some .version => return .version
  | some _ => return .help
  | none =>
    match remainder with
    | [] => throw .missingCommand
    | "help" :: topics => understandTopics topics
    | name :: rest =>
      match CommandForm.ofName? name with
      | none => throw (.unexpected name)
      | some form =>
        let (own, _) ← readArguments (.help :: .seed :: form.switches) false none rest
        let inner ← own.foldlM (Settings.add form.takesSample) {}
        match requestIn own with
        | some _ => return .help
        | none => return .run (form.make inner) (inner.seed <|> outer.seed)

end FormalLanguages.CommandLine
