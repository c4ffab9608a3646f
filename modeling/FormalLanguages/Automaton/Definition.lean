import FormalLanguages.Automaton.Basic

/-! # Defining an automaton

An `Automaton.Definition` lists declarations and transitions as they were given.
`Automaton.Definition.build` turns it into an automaton or reports everything that is wrong with it,
first the start and the accepting states and then the transitions move by move. -/

namespace FormalLanguages.Automaton

/-- What can be wrong with an automaton. -/
inductive Fault where
  /-- The start is not a declared state. -/
  | unknownStart (state : State)
  /-- An accepting state is not declared. -/
  | unknownAccepting (state : State)
  /-- A transition leaves or enters a state that is not declared. -/
  | unknownState (state : State)
  /-- A transition reads a letter that is not in the alphabet. -/
  | foreignLetter (letter : Char)
  deriving DecidableEq

/-- The message of a fault. -/
def Fault.message : Fault → String
  | unknownStart s => "Start state `" ++ s.text ++ "` is not a declared state"
  | unknownAccepting s => "Accepting state `" ++ s.text ++ "` is not a declared state"
  | unknownState s => "Could not find declaration for state `" ++ s.text ++ "`"
  | foreignLetter c => "Symbol `" ++ c.toString ++ "` is not in the alphabet"

instance : ToString Fault := ⟨Fault.message⟩

/-- The faults of one move: its source, its letter, and its targets in order. -/
def faultsOfMove (a : Automaton) (move : (State × Char) × SortedSet State) :
    List (Diagnostic Fault) :=
  let source := move.1.1
  let letter := move.1.2
  let found :=
    (if source ∈ a.states then [] else [Fault.unknownState source]) ++
    (if letter ∈ a.alphabet then [] else [Fault.foreignLetter letter]) ++
    (move.2.toList.filter (· ∉ a.states)).map Fault.unknownState
  found.map fun fault => ⟨.transition source letter, fault⟩

/-- Everything that keeps an automaton from being well formed. -/
def faults (a : Automaton) : List (Diagnostic Fault) :=
  (if a.start ∈ a.states then [] else [⟨.definition, .unknownStart a.start⟩]) ++
    (a.accepting.toList.filter (· ∉ a.states)).map (⟨.definition, .unknownAccepting ·⟩) ++
    a.moves.flatMap a.faultsOfMove

/-- The **definition of an automaton**, as it is given. All states are given by name. -/
structure Definition where
  /-- The name of the start. -/
  start : String
  /-- The states that are declared. -/
  states : List String
  /-- The letters that are declared. -/
  alphabet : List Char
  /-- Sources and letters with the targets that are added to them. -/
  transitions : List (String × Char × List String)
  /-- The accepting states. -/
  accepting : List String

namespace Definition

/-- The automaton as it is given, whether or not it is well formed. -/
def automaton (d : Definition) : Automaton where
  start := .atom d.start
  states := SortedSet.ofList (d.states.map .atom)
  alphabet := SortedSet.ofList d.alphabet
  transitions := SortedSet.ofList <| d.transitions.flatMap fun (source, letter, targets) =>
    targets.map fun target => ⟨.atom source, letter, .atom target⟩
  accepting := SortedSet.ofList (d.accepting.map .atom)

/-- **Builds** the defined automaton, or reports all faults of the definition. -/
def build (d : Definition) : Except (List (Diagnostic Fault)) Automaton :=
  match d.automaton.faults with
  | [] => .ok d.automaton
  | faults => .error faults

end Definition

end FormalLanguages.Automaton
