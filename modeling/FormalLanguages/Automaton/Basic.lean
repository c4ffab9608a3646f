import FormalLanguages.Diagnostic
import FormalLanguages.Lexicographic

/-! # Finite automata

An `Automaton` has a finite set of transitions, each from a source to a target on a letter; it may
have several targets for one source and letter. All collections are sorted sets, so a source and a
letter without targets leave no trace. An automaton accepts a word when the states that are active
after all letters include an accepting one. -/

namespace FormalLanguages

/-- A **transition** from a state to another on a letter. -/
structure Transition where
  /-- The state that is left. -/
  source : State
  /-- The letter that is read. -/
  letter : Char
  /-- The state that is entered. -/
  target : State
  deriving DecidableEq

namespace Transition

instance : Ord Transition :=
  ⟨compareLex (compareOn source) (compareLex (compareOn letter) (compareOn target))⟩

instance : Std.TransOrd Transition :=
  transCmp_compareLex (transCmp_compareOn source)
    (transCmp_compareLex (transCmp_compareOn letter) (transCmp_compareOn target))

instance : Std.LawfulEqOrd Transition :=
  lawfulEqCmp_compareLex (transCmp_compareOn source)
    (transCmp_compareLex (transCmp_compareOn letter) (transCmp_compareOn target))
    fun x y first rest => by
      have hs := eq_of_compareOn first
      have hl := eq_of_compareOn (Ordering.then_eq_eq.1 rest).1
      have ht := eq_of_compareOn (Ordering.then_eq_eq.1 rest).2
      cases x; cases y; cases hs; cases hl; cases ht; rfl

end Transition

/-- A **finite automaton**, deterministic or not. -/
structure Automaton where
  /-- The state in which runs begin. -/
  start : State
  /-- The declared states. -/
  states : SortedSet State
  /-- The letters. -/
  alphabet : SortedSet Char
  /-- The transitions. -/
  transitions : SortedSet Transition
  /-- The states in which runs may end. -/
  accepting : SortedSet State
  deriving DecidableEq

namespace Automaton

/-- The states entered from `source` on a letter. -/
def targets (a : Automaton) (source : State) (letter : Char) : SortedSet State :=
  a.transitions.filterMap fun t =>
    if t.source = source ∧ t.letter = letter then some t.target else none

@[simp] theorem mem_targets {a : Automaton} {source target : State} {letter : Char} :
    target ∈ a.targets source letter ↔ ⟨source, letter, target⟩ ∈ a.transitions := by
  simp only [targets, SortedSet.mem_filterMap, Option.ite_none_right_eq_some, Option.some.injEq]
  constructor
  · rintro ⟨t, ht, ⟨rfl, rfl⟩, rfl⟩; exact ht
  · intro h; exact ⟨_, h, ⟨rfl, rfl⟩, rfl⟩

/-- The pairs of a source and a letter that have targets, in order. -/
def sources (a : Automaton) : List (State × Char) :=
  (a.transitions.toList.map fun t => (t.source, t.letter)).eraseDups

/-- The transitions **grouped** by source and letter. -/
def moves (a : Automaton) : List ((State × Char) × SortedSet State) :=
  a.sources.map fun source => (source, a.targets source.1 source.2)

/-- The moves of one state, in the order of letters. -/
def movesFrom (a : Automaton) (state : State) : List (Char × SortedSet State) :=
  (a.moves.filter fun move => move.1.1 = state).map fun move => (move.1.2, move.2)

/-- Whether no transition leaves a state. -/
def isDeadEnd (a : Automaton) (state : State) : Bool :=
  a.transitions.toList.all fun t => t.source ≠ state

@[simp] theorem isDeadEnd_iff {a : Automaton} {state : State} :
    a.isDeadEnd state = true ↔ ∀ t, t ∈ a.transitions → t.source ≠ state := by
  simp [isDeadEnd, SortedSet.mem_toList]

/-- The states entered from any of the active states on a letter. -/
def step (a : Automaton) (active : SortedSet State) (letter : Char) : SortedSet State :=
  a.transitions.filterMap fun t =>
    if t.source ∈ active ∧ t.letter = letter then some t.target else none

@[simp] theorem mem_step {a : Automaton} {active : SortedSet State} {letter : Char}
    {target : State} : target ∈ a.step active letter ↔
      ∃ source, source ∈ active ∧ ⟨source, letter, target⟩ ∈ a.transitions := by
  simp only [step, SortedSet.mem_filterMap, Option.ite_none_right_eq_some, Option.some.injEq]
  constructor
  · rintro ⟨t, ht, ⟨hs, rfl⟩, rfl⟩; exact ⟨_, hs, ht⟩
  · rintro ⟨source, hs, h⟩; exact ⟨_, h, ⟨hs, rfl⟩, rfl⟩

/-- From a single active state a letter leads along the transitions of this state. -/
theorem mem_step_singleton {a : Automaton} {source target : State} {letter : Char} :
    target ∈ a.step {source} letter ↔ ⟨source, letter, target⟩ ∈ a.transitions := by
  simp only [mem_step, SortedSet.mem_singleton, exists_eq_left]

/-- Whether some active state is accepting. -/
def meetsAccepting (a : Automaton) (active : SortedSet State) : Bool :=
  active.toList.any (· ∈ a.accepting)

@[simp] theorem meetsAccepting_iff {a : Automaton} {active : SortedSet State} :
    a.meetsAccepting active = true ↔ ∃ state, state ∈ active ∧ state ∈ a.accepting := by
  simp [meetsAccepting, SortedSet.mem_toList]

/-- Whether reading a word from the active states leads to an accepting one. Reading stops as soon
as no state is active. -/
def acceptsFrom (a : Automaton) (active : SortedSet State) : List Char → Bool
  | [] => a.meetsAccepting active
  | letter :: rest =>
    let next := a.step active letter
    -- without active states no later letter can activate any
    if next.isEmpty then false else a.acceptsFrom next rest

/-- Whether the automaton **accepts** a word. -/
def accepts (a : Automaton) (word : List Char) : Bool := a.acceptsFrom {a.start} word

/-- Whether every move has a single target. -/
def isDeterministic (a : Automaton) : Bool := a.moves.all fun move => move.2.size == 1

/-- An automaton is **well formed** when it declares its start, its accepting states, and the
states and letters of its transitions. -/
structure WellFormed (a : Automaton) : Prop where
  /-- The start is a declared state. -/
  start_mem : a.start ∈ a.states
  /-- Accepting states are declared. -/
  accepting_mem : ∀ s, s ∈ a.accepting → s ∈ a.states
  /-- Transitions leave declared states. -/
  source_mem : ∀ t, t ∈ a.transitions → t.source ∈ a.states
  /-- Transitions read letters of the alphabet. -/
  letter_mem : ∀ t, t ∈ a.transitions → t.letter ∈ a.alphabet
  /-- Transitions enter declared states. -/
  target_mem : ∀ t, t ∈ a.transitions → t.target ∈ a.states

theorem wellFormed_iff {a : Automaton} : a.WellFormed ↔
    a.start ∈ a.states ∧ (∀ s, s ∈ a.accepting → s ∈ a.states) ∧
      (∀ t, t ∈ a.transitions → t.source ∈ a.states) ∧
      (∀ t, t ∈ a.transitions → t.letter ∈ a.alphabet) ∧
      ∀ t, t ∈ a.transitions → t.target ∈ a.states :=
  ⟨fun h => ⟨h.1, h.2, h.3, h.4, h.5⟩, fun h => ⟨h.1, h.2.1, h.2.2.1, h.2.2.2.1, h.2.2.2.2⟩⟩

instance (a : Automaton) : Decidable a.WellFormed := decidable_of_iff _ wellFormed_iff.symm

/-- The written form of states between braces. -/
def textOfStates (states : SortedSet State) : String :=
  "\x7b" ++ String.intercalate ", " (states.toList.map State.text) ++ "\x7d"

/-- The **written form** of an automaton: its states and letters, its moves, its start and its
accepting states. -/
def text (a : Automaton) : String :=
  let move (m : (State × Char) × SortedSet State) :=
    "    " ++ m.1.1.transitionText m.1.2 ++ " = " ++ textOfStates m.2 ++ "\n"
  "Q = " ++ textOfStates a.states ++ "\n" ++
  "Σ = \x7b" ++ String.intercalate ", " (a.alphabet.toList.map Char.toString) ++ "\x7d\n" ++
  String.join (a.moves.map move) ++
  "q0 = " ++ a.start.text ++ "\n" ++
  "F = " ++ textOfStates a.accepting

end Automaton

end FormalLanguages
