import FormalLanguages.Diagnostic
import FormalLanguages.Hierarchy.PhraseGrammar

/-! # The Chomsky hierarchy

Every rule allows a most restrictive level on its own, and a grammar belongs to the least
restrictive level among its rules. One thing cannot be seen in a single rule: a regular grammar
places its nonterminals either always after the letter or always before it. -/

namespace FormalLanguages

/-- A **level of the hierarchy**, from the least to the most restrictive one. -/
inductive Level where
  /-- Type 0: any rule. -/
  | unrestricted
  /-- Type 1: rules that do not shorten a form. -/
  | contextSensitive
  /-- Type 2: rules that replace a single nonterminal. -/
  | contextFree
  /-- Type 3: rules with at most one nonterminal, always at the same end. -/
  | regular
  deriving DecidableEq

namespace Level

/-- The type number of a level. -/
def number : Level → Nat
  | unrestricted => 0
  | contextSensitive => 1
  | contextFree => 2
  | regular => 3

/-- The name of a level. -/
def name : Level → String
  | unrestricted => "unrestricted"
  | contextSensitive => "context-sensitive"
  | contextFree => "context-free"
  | regular => "regular"

/-- The **written form** of a level. -/
def text (level : Level) : String := "Type " ++ level.number.repr ++ " (" ++ level.name ++ ")"

/-- The less restrictive of two levels. -/
def lower (x y : Level) : Level := if x.number ≤ y.number then x else y

@[simp] theorem number_lower (x y : Level) : (x.lower y).number = min x.number y.number := by
  unfold lower
  split <;> omega

end Level

/-- Where a right-hand side of two symbols places its letter and its nonterminal. -/
inductive Orientation where
  /-- A letter, then a nonterminal. -/
  | right
  /-- A nonterminal, then a letter. -/
  | left
  deriving DecidableEq

/-- The orientation of a right-hand side that has one. -/
def Form.orientation? : Form → Option Orientation
  | [.terminal _, .nonterminal _] => some .right
  | [.nonterminal _, .terminal _] => some .left
  | _ => none

/-- Whether a form is a letter, alone or next to one nonterminal. -/
def Form.isLinear : Form → Bool
  | [.terminal _] => true
  | form => (orientation? form).isSome

namespace PhraseGrammar

/-- Whether a grammar may have a right-hand side for a nonterminal and still be regular. Only a
start that occurs on no right-hand side may vanish. -/
def allowsRegular (g : PhraseGrammar) (name : String) (rhs : Form) : Bool :=
  if rhs.isEmpty then name == g.start && !g.startOccursOnRight else Form.isLinear rhs

/-- The most restrictive level that a rule allows on its own. -/
def levelOfRule (g : PhraseGrammar) (rule : Form × SortedSet Form) : Level :=
  match rule.1 with
  | [.nonterminal name] =>
    if rule.2.toList.all (g.allowsRegular name) then .regular else .contextFree
  | lhs => if rule.2.toList.all (lhs.length ≤ ·.length) then .contextSensitive else .unrestricted

/-- The rules that replace a single nonterminal. -/
def contextFreeProductions (g : PhraseGrammar) : List Rewriting :=
  g.productions.toList.filter fun r => r.lhs.length = 1 && r.lhs.all (!·.isTerminal)

/-- Whether some rewriting of a single nonterminal has the given orientation. -/
def hasOrientation (g : PhraseGrammar) (orientation : Orientation) : Bool :=
  g.contextFreeProductions.any fun r => Form.orientation? r.rhs = some orientation

/-- The **level of a grammar** all of whose rules make sense. -/
def level (g : PhraseGrammar) : Level :=
  let least := (g.rules.map g.levelOfRule).foldr Level.lower .regular
  -- rules that are regular one by one need not be regular together
  if g.hasOrientation .right && g.hasOrientation .left then least.lower .contextFree else least

/-- What can be wrong with a phrase-structure grammar. -/
inductive Fault where
  /-- The start is not a declared nonterminal. -/
  | unknownStart (name : String)
  /-- A rule uses a nonterminal that is not declared. -/
  | unknownNonterminal (name : String)
  /-- A rule uses a letter that is not declared. -/
  | unknownTerminal (letter : Char)
  /-- The left-hand side of a rule holds no nonterminal. -/
  | nothingToRewrite
  deriving DecidableEq

/-- The message of a fault. -/
def Fault.message : Fault → String
  | unknownStart n => "Start symbol `" ++ n ++ "` is not a declared nonterminal"
  | unknownNonterminal n => "Could not find declaration for nonterminal `" ++ n ++ "`"
  | unknownTerminal c => "Terminal `" ++ c.toString ++ "` is not in the alphabet"
  | nothingToRewrite => "Left-hand side contains no nonterminal"

instance : ToString Fault := ⟨Fault.message⟩

/-- The fault of using a symbol that the grammar does not declare. -/
def unknown? (g : PhraseGrammar) (s : Symbol) : Option Fault :=
  if g.Declares s then none
  else match s with
    | .terminal c => some (.unknownTerminal c)
    | .nonterminal n => some (.unknownNonterminal n)

/-- What is wrong with a rule: the first undeclared symbol of its left-hand side and then of its
alternatives, or else a left-hand side without a nonterminal. -/
def faultOfRule (g : PhraseGrammar) (rule : Form × SortedSet Form) : Option Fault :=
  match (rule.1 ++ rule.2.toList.flatten).findSome? g.unknown? with
  | some fault => some fault
  | none => if rule.1.all Symbol.isTerminal then some .nothingToRewrite else none

/-- The first thing that is wrong with a grammar: its start, or a rule in the order of left-hand
sides. -/
def firstFault (g : PhraseGrammar) : Option (Diagnostic Fault) :=
  if g.start ∈ g.nonterminals then
    g.rules.findSome? fun rule =>
      (g.faultOfRule rule).map fun fault => ⟨.rewriting rule.1 rule.2.toList, fault⟩
  else some ⟨.definition, .unknownStart g.start⟩

/-- **Classifies** a grammar, or reports the first thing that is wrong with it. -/
def classify (g : PhraseGrammar) : Except (Diagnostic Fault) Level :=
  match g.firstFault with
  | some fault => .error fault
  | none => .ok g.level

end PhraseGrammar

/-- The written form of a classification. -/
def Level.textOfClassification : Except (Diagnostic PhraseGrammar.Fault) Level → String
  | .ok level => level.text
  | .error diagnostic => "invalid: " ++ diagnostic.text

/-- **Classifies** a context-free grammar. -/
def Grammar.classify (g : Grammar) : Except (Diagnostic PhraseGrammar.Fault) Level :=
  g.toPhraseGrammar.classify

end FormalLanguages
