import FormalLanguages.Proofs.Automaton.Integrity
import FormalLanguages.Proofs.Listing

/-! # What building an automaton accepts and reports

The targets that are given for a source and a letter are merged, in whatever calls they come, and
a source and a letter without targets leave no trace (`Automaton.Definition.Merges`). A definition
is sound when it declares its start, its accepting states, and the states and letters of what is
merged. It is built just when it is sound, and otherwise the report lists in order what is wrong:
first the start, then the accepting states, and then the merged transitions, source by source and
letter by letter (`Automaton.Definition.builds_or_reports`). -/

namespace FormalLanguages.Automaton

/-! ## Moves in order -/

/-- A source and a letter **precede** others in the order of sources, and of letters for one
source. -/
def Precedes (x y : State × Char) : Prop := (compare x.1 y.1).then (compare x.2 y.2) = .lt

/-- Nothing precedes what precedes it. -/
theorem Precedes.asymm {x y : State × Char} (first : Precedes x y) : ¬ Precedes y x := by
  intro second
  have swapped : ((compare x.1 y.1).then (compare x.2 y.2)).swap = .lt := by
    rw [Ordering.swap_then, ← Std.OrientedOrd.eq_swap, ← Std.OrientedOrd.eq_swap]
    exact second
  rw [show (compare x.1 y.1).then (compare x.2 y.2) = .lt from first] at swapped
  cases swapped

/-- Nothing precedes itself. -/
theorem not_precedes_self (x : State × Char) : ¬ Precedes x x := fun first => first.asymm first

/-- Sources and letters are listed in order, each once. -/
theorem sources_ascending (a : Automaton) : a.sources.Pairwise Precedes := by
  have weakly : (a.transitions.toList.map fun t => (t.source, t.letter)).Pairwise
      fun x y => ((compare x.1 y.1).then (compare x.2 y.2)).isLE = true := by
    refine List.pairwise_map.2 (a.transitions.ascending.imp fun {t u} less => ?_)
    have less : ((compare t.source u.source).then (compare t.letter u.letter)).then
        (compare t.target u.target) = .lt := by
      rw [Ordering.then_assoc]
      exact less
    exact Ordering.isLE_left_of_isLE_then (Ordering.isLE_of_eq_lt less)
  refine pairwise_eraseDups (fun x y le other => ?_) _ weakly
  rcases Ordering.isLE_iff_eq_lt_or_eq_eq.1 le with less | same
  · exact less
  · obtain ⟨source, letter⟩ := Ordering.then_eq_eq.1 same
    refine absurd (Prod.ext ?_ ?_) other
    · exact Std.LawfulEqOrd.eq_of_compare source
    · exact Std.LawfulEqOrd.eq_of_compare letter

/-- Moves are listed in the order of their sources and letters. -/
theorem moves_ascending (a : Automaton) : a.moves.Pairwise fun x y => Precedes x.1 y.1 :=
  List.pairwise_map.2 a.sources_ascending

/-- A move holds the targets of its source and letter, of which there is one. -/
theorem mem_moves_iff {a : Automaton} {move : (State × Char) × SortedSet State} :
    move ∈ a.moves ↔ (∃ target, target ∈ move.2) ∧
      ∀ target, target ∈ move.2 ↔ ⟨move.1.1, move.1.2, target⟩ ∈ a.transitions := by
  constructor
  · intro mem
    refine ⟨exists_target_of_mem_moves mem, fun target => ?_⟩
    obtain ⟨source, _, rfl⟩ := List.mem_map.1 mem
    exact mem_targets
  · obtain ⟨source, targets⟩ := move
    rintro ⟨⟨target, entered⟩, same⟩
    refine List.mem_map.2 ⟨source, mem_sources.2 ⟨_, (same target).1 entered, rfl⟩, ?_⟩
    refine congrArg (Prod.mk source) ?_
    ext other
    exact mem_targets.trans (same other).symm

/-- A transition is found in the move of its source and letter. -/
theorem mem_transitions_iff {a : Automaton} {t : Transition} :
    t ∈ a.transitions ↔
      ∃ targets, ((t.source, t.letter), targets) ∈ a.moves ∧ t.target ∈ targets := by
  simp only [mem_moves_iff]
  constructor
  · intro mem
    refine ⟨a.targets t.source t.letter, ⟨⟨t.target, mem_targets.2 mem⟩, fun _ => mem_targets⟩, ?_⟩
    exact mem_targets.2 mem
  · rintro ⟨targets, ⟨_, same⟩, entered⟩
    exact (same t.target).1 entered

namespace Definition

variable {d : Definition} {a : Automaton}

/-! ## What a definition gives -/

/-- A definition **leads** from a state to another on a letter when one of its transitions adds
this target. -/
def Leads (d : Definition) (source : String) (letter : Char) (target : String) : Prop :=
  ∃ targets, (source, letter, targets) ∈ d.transitions ∧ target ∈ targets

/-- The transitions of a definition are **merged** in a move that holds all targets of its source
and letter, if there are any. -/
structure Merges (d : Definition) (move : (State × Char) × SortedSet State) : Prop where
  /-- There are targets. -/
  nonempty : ∃ target, target ∈ move.2
  /-- They are the ones that are given for the source and the letter. -/
  mem_targets : ∀ target, target ∈ move.2 ↔
    ∃ m n, d.Leads m move.1.2 n ∧ .atom m = move.1.1 ∧ .atom n = target

/-- An automaton is **defined** by a definition that makes the same declarations and whose merged
transitions are its moves. -/
structure Defines (d : Definition) (a : Automaton) : Prop where
  /-- The start is the same. -/
  start_eq : a.start = .atom d.start
  /-- The same states are declared. -/
  mem_states : ∀ s, s ∈ a.states ↔ ∃ name ∈ d.states, .atom name = s
  /-- The same letters are declared. -/
  mem_alphabet : ∀ letter, letter ∈ a.alphabet ↔ letter ∈ d.alphabet
  /-- The same states are accepting. -/
  mem_accepting : ∀ s, s ∈ a.accepting ↔ ∃ name ∈ d.accepting, .atom name = s
  /-- The moves are the merged transitions. -/
  mem_moves : ∀ move, move ∈ a.moves ↔ d.Merges move
  /-- They are in the order of sources and letters, each once. -/
  ascending : a.moves.Pairwise fun x y => Precedes x.1 y.1

/-- Two definitions **agree** when they make the same declarations and lead to the same states,
whatever the order and the grouping of their transitions. -/
structure Agrees (d d' : Definition) : Prop where
  /-- The start is the same. -/
  start_eq : d.start = d'.start
  /-- The same states are declared. -/
  mem_states : ∀ name, name ∈ d.states ↔ name ∈ d'.states
  /-- The same letters are declared. -/
  mem_alphabet : ∀ letter, letter ∈ d.alphabet ↔ letter ∈ d'.alphabet
  /-- The same states are accepting. -/
  mem_accepting : ∀ name, name ∈ d.accepting ↔ name ∈ d'.accepting
  /-- The same targets are given. -/
  leads_iff : ∀ m letter n, d.Leads m letter n ↔ d'.Leads m letter n

/-- A definition is **sound** when it uses declared states and letters only. -/
structure Sound (d : Definition) : Prop where
  /-- The start is a declared state. -/
  start_mem : d.start ∈ d.states
  /-- Accepting states are declared. -/
  accepting_mem : ∀ name ∈ d.accepting, name ∈ d.states
  /-- Transitions with targets leave declared states. -/
  source_mem : ∀ m letter n, d.Leads m letter n → m ∈ d.states
  /-- Transitions with targets read declared letters. -/
  letter_mem : ∀ m letter n, d.Leads m letter n → letter ∈ d.alphabet
  /-- Targets are declared states. -/
  target_mem : ∀ m letter n, d.Leads m letter n → n ∈ d.states

/-- The states of the automaton are the ones that are named. -/
theorem mem_states_automaton {s : State} :
    s ∈ d.automaton.states ↔ ∃ name ∈ d.states, .atom name = s := by
  rw [automaton, SortedSet.mem_ofList, List.mem_map]

theorem mem_accepting_automaton {s : State} :
    s ∈ d.automaton.accepting ↔ ∃ name ∈ d.accepting, .atom name = s := by
  rw [automaton, SortedSet.mem_ofList, List.mem_map]

theorem mem_alphabet_automaton {letter : Char} :
    letter ∈ d.automaton.alphabet ↔ letter ∈ d.alphabet := SortedSet.mem_ofList

/-- A name is a state of the automaton when it is declared. -/
@[simp] theorem atom_mem_states_automaton {name : String} :
    .atom name ∈ d.automaton.states ↔ name ∈ d.states := by
  simp [mem_states_automaton]

/-- The transitions of the automaton are the ones that the definition leads along. -/
theorem mem_transitions_automaton {t : Transition} :
    t ∈ d.automaton.transitions ↔
      ∃ m n, d.Leads m t.letter n ∧ .atom m = t.source ∧ .atom n = t.target := by
  obtain ⟨source, letter, target⟩ := t
  simp only [automaton, SortedSet.mem_ofList, List.mem_flatMap, List.mem_map, Transition.mk.injEq]
  constructor
  · rintro ⟨⟨m, _, targets⟩, given, n, mem, rfl, rfl, rfl⟩
    exact ⟨m, n, ⟨targets, given, mem⟩, rfl, rfl⟩
  · rintro ⟨m, n, ⟨targets, given, mem⟩, rfl, rfl⟩
    exact ⟨_, given, n, mem, rfl, rfl, rfl⟩

/-- The moves of the automaton are the merged transitions. -/
theorem mem_moves_automaton {move : (State × Char) × SortedSet State} :
    move ∈ d.automaton.moves ↔ d.Merges move := by
  simp only [mem_moves_iff, mem_transitions_automaton]
  exact ⟨fun h => ⟨h.1, h.2⟩, fun h => ⟨h.1, h.2⟩⟩

/-- What a definition leads along is part of a move. -/
theorem Leads.exists_move {m n : String} {letter : Char} (given : d.Leads m letter n) :
    ∃ targets, ((.atom m, letter), targets) ∈ d.automaton.moves := by
  have mem : ⟨.atom m, letter, .atom n⟩ ∈ d.automaton.transitions :=
    mem_transitions_automaton.2 ⟨m, n, given, rfl, rfl⟩
  obtain ⟨targets, listed, _⟩ := mem_transitions_iff.1 mem
  exact ⟨targets, listed⟩

/-- The automaton as it is given is defined by the definition. -/
theorem defines_automaton (d : Definition) : d.Defines d.automaton where
  start_eq := rfl
  mem_states _ := mem_states_automaton
  mem_alphabet _ := mem_alphabet_automaton
  mem_accepting _ := mem_accepting_automaton
  mem_moves _ := mem_moves_automaton
  ascending := d.automaton.moves_ascending

/-- **A definition defines one automaton.** -/
theorem Defines.eq_automaton (defines : d.Defines a) : a = d.automaton := by
  have states : a.states = d.automaton.states := by
    ext s
    rw [defines.mem_states, mem_states_automaton]
  have letters : a.alphabet = d.automaton.alphabet := by
    ext letter
    rw [defines.mem_alphabet, mem_alphabet_automaton]
  have arrows : a.transitions = d.automaton.transitions := by
    ext t
    simp only [mem_transitions_iff, defines.mem_moves, mem_moves_automaton]
  have ends : a.accepting = d.automaton.accepting := by
    ext s
    rw [defines.mem_accepting, mem_accepting_automaton]
  calc a = ⟨a.start, a.states, a.alphabet, a.transitions, a.accepting⟩ := rfl
    _ = d.automaton := by rw [defines.start_eq, states, letters, arrows, ends]; rfl

/-- Definitions that agree merge their transitions in the same moves. -/
theorem Agrees.merges_iff {d' : Definition} (agrees : d.Agrees d')
    {move : (State × Char) × SortedSet State} : d.Merges move ↔ d'.Merges move := by
  constructor
  · rintro ⟨nonempty, mem⟩
    exact ⟨nonempty, by simpa only [agrees.leads_iff] using mem⟩
  · rintro ⟨nonempty, mem⟩
    exact ⟨nonempty, by simpa only [agrees.leads_iff] using mem⟩

/-- **Order and grouping leave no trace**: definitions that agree give the same automaton. -/
theorem Agrees.automaton_eq {d' : Definition} (agrees : d.Agrees d') :
    d.automaton = d'.automaton := by
  refine Defines.eq_automaton ⟨?_, fun s => ?_, fun letter => ?_, fun s => ?_, fun move => ?_,
    d.automaton.moves_ascending⟩
  · exact congrArg State.atom agrees.start_eq
  · simp only [mem_states_automaton, agrees.mem_states]
  · rw [mem_alphabet_automaton, agrees.mem_alphabet]
  · simp only [mem_accepting_automaton, agrees.mem_accepting]
  · rw [mem_moves_automaton, agrees.merges_iff]

/-! ## Faults and where they are -/

/-- A **part** of the transitions of a source and a letter. -/
inductive Part where
  /-- The source. -/
  | source
  /-- The letter. -/
  | letter
  /-- A target. -/
  | target (state : State)

/-- The source comes **before** the letter and the letter before the targets. -/
def Part.Before : Part → Part → Prop
  | source, letter => True
  | source, target _ => True
  | letter, target _ => True
  | target s, target t => compare s t = .lt
  | _, _ => False

/-- No part is before and after another. -/
theorem Part.Before.asymm {x y : Part} (before : x.Before y) : ¬ y.Before x := by
  intro after
  cases x <;> cases y <;> simp only [Before] at before after
  case target.target s t => exact absurd after (Std.OrientedCmp.not_lt_of_lt before)

/-- A **spot** of a definition where something can be wrong. -/
inductive Spot where
  /-- The start. -/
  | start
  /-- An accepting state. -/
  | accepting (state : State)
  /-- A part of the transitions of a source and a letter. -/
  | move (source : State) (letter : Char) (part : Part)

/-- One spot is **before** another in a report: the start comes first, then the accepting states and
then the transitions, both in order. -/
def Spot.Before : Spot → Spot → Prop
  | start, accepting _ => True
  | start, move .. => True
  | accepting s, accepting t => compare s t = .lt
  | accepting _, move .. => True
  | move s c x, move t e y => Precedes (s, c) (t, e) ∨ (s = t ∧ c = e) ∧ x.Before y
  | _, _ => False

/-- No spot is before and after another. -/
theorem Spot.Before.asymm {x y : Spot} (before : x.Before y) : ¬ y.Before x := by
  intro after
  cases x <;> cases y <;> simp only [Before] at before after
  case accepting.accepting s t => exact absurd after (Std.OrientedCmp.not_lt_of_lt before)
  case move.move s c x t e y =>
    rcases before with before | ⟨⟨rfl, rfl⟩, before⟩
    · rcases after with after | ⟨⟨rfl, rfl⟩, _⟩
      · exact before.asymm after
      · exact not_precedes_self _ before
    · rcases after with after | ⟨_, after⟩
      · exact not_precedes_self _ after
      · exact before.asymm after

/-- What is **wrong at a spot** of a definition. -/
inductive FaultAt (d : Definition) : Spot → Diagnostic Fault → Prop
  | start (undeclared : d.start ∉ d.states) :
      FaultAt d .start ⟨.definition, .unknownStart (.atom d.start)⟩
  | accepting {name : String} (given : name ∈ d.accepting) (undeclared : name ∉ d.states) :
      FaultAt d (.accepting (.atom name)) ⟨.definition, .unknownAccepting (.atom name)⟩
  | source {m n : String} {letter : Char} (given : d.Leads m letter n) (undeclared : m ∉ d.states) :
      FaultAt d (.move (.atom m) letter .source)
        ⟨.transition (.atom m) letter, .unknownState (.atom m)⟩
  | letter {m n : String} {letter : Char} (given : d.Leads m letter n)
      (foreign : letter ∉ d.alphabet) :
      FaultAt d (.move (.atom m) letter .letter)
        ⟨.transition (.atom m) letter, .foreignLetter letter⟩
  | target {m n : String} {letter : Char} (given : d.Leads m letter n) (undeclared : n ∉ d.states) :
      FaultAt d (.move (.atom m) letter (.target (.atom n)))
        ⟨.transition (.atom m) letter, .unknownState (.atom n)⟩

/-- How a report **shows** a spot: the transitions of a source and a letter are written out, and the
start and the accepting states are matters of the definition. -/
def Spot.shown : Spot → String
  | start => "definition"
  | accepting _ => "definition"
  | move source letter _ => "δ(" ++ source.text ++ ", " ++ letter.toString ++ ")"

/-- What is wrong at a spot is placed where the report shows the spot. -/
theorem FaultAt.shown_eq {spot : Spot} {e : Diagnostic Fault} (found : d.FaultAt spot e) :
    spot.shown = e.place.text := by
  cases found with
  | start => rfl
  | accepting => rfl
  | source => rfl
  | letter => rfl
  | target => rfl

/-- **A definition is sound when nothing is wrong anywhere.** -/
theorem sound_iff : d.Sound ↔ ∀ spot e, ¬ d.FaultAt spot e := by
  constructor
  · rintro sound spot e (undeclared | ⟨given, undeclared⟩ | ⟨given, undeclared⟩ | ⟨given, foreign⟩ |
      ⟨given, undeclared⟩)
    · exact undeclared sound.start_mem
    · exact undeclared (sound.accepting_mem _ given)
    · exact undeclared (sound.source_mem _ _ _ given)
    · exact foreign (sound.letter_mem _ _ _ given)
    · exact undeclared (sound.target_mem _ _ _ given)
  · intro none
    refine ⟨?_, fun name given => ?_, fun m letter n given => ?_, fun m letter n given => ?_,
      fun m letter n given => ?_⟩
    · exact Classical.byContradiction fun undeclared => none _ _ (.start undeclared)
    · exact Classical.byContradiction fun undeclared => none _ _ (.accepting given undeclared)
    · exact Classical.byContradiction fun undeclared => none _ _ (.source given undeclared)
    · exact Classical.byContradiction fun foreign => none _ _ (.letter given foreign)
    · exact Classical.byContradiction fun undeclared => none _ _ (.target given undeclared)

/-! ## The report -/

/-- The undeclared accepting states are reported in order. -/
theorem lists_accepting (d : Definition) :
    ListsInOrder Spot.Before (fun spot e => (∃ s, spot = .accepting s) ∧ d.FaultAt spot e)
      ((d.automaton.accepting.toList.filter (· ∉ d.automaton.states)).map
        (⟨.definition, .unknownAccepting ·⟩)) := by
  refine (ListsInOrder.filter Spot.accepting _ d.automaton.accepting.ascending
    fun s t less => less).congr fun spot e => ?_
  simp only [SortedSet.mem_toList, mem_accepting_automaton, decide_eq_true_eq]
  constructor
  · rintro ⟨_, ⟨name, given, rfl⟩, undeclared, rfl, rfl⟩
    exact ⟨⟨_, rfl⟩, .accepting given (mt atom_mem_states_automaton.2 undeclared)⟩
  · rintro ⟨⟨s, rfl⟩, found⟩
    cases found with
    | accepting given undeclared =>
      exact ⟨_, ⟨_, given, rfl⟩, mt atom_mem_states_automaton.1 undeclared, rfl, rfl⟩

/-- A source is reported before its letter, and both before the targets. -/
theorem lists_faultsOfMove {move : (State × Char) × SortedSet State} (merges : d.Merges move) :
    ListsInOrder Spot.Before
      (fun spot e => (∃ part, spot = .move move.1.1 move.1.2 part) ∧ d.FaultAt spot e)
      (d.automaton.faultsOfMove move) := by
  obtain ⟨⟨source, letter⟩, targets⟩ := move
  obtain ⟨⟨_, entered⟩, mem⟩ := merges
  obtain ⟨m, n, given, rfl, rfl⟩ := (mem _).1 entered
  have sources : ListsInOrder Spot.Before
      (fun spot fault => m ∉ d.states ∧ spot = .move (.atom m) letter .source ∧
        fault = .unknownState (.atom m))
      (if .atom m ∈ d.automaton.states then [] else [Fault.unknownState (.atom m)]) :=
    (ListsInOrder.ite _ _).congr fun _ _ => by rw [atom_mem_states_automaton]
  have letters : ListsInOrder Spot.Before
      (fun spot fault => letter ∉ d.alphabet ∧ spot = .move (.atom m) letter .letter ∧
        fault = .foreignLetter letter)
      (if letter ∈ d.automaton.alphabet then [] else [Fault.foreignLetter letter]) :=
    (ListsInOrder.ite _ _).congr fun _ _ => by rw [mem_alphabet_automaton]
  have ends : ListsInOrder Spot.Before
      (fun spot fault => ∃ t ∈ targets.toList, decide (t ∉ d.automaton.states) = true ∧
        spot = .move (.atom m) letter (.target t) ∧ fault = .unknownState t)
      ((targets.toList.filter (· ∉ d.automaton.states)).map Fault.unknownState) := by
    refine .filter (fun t => Spot.move (.atom m) letter (.target t)) _ targets.ascending
      fun s t less => ?_
    exact Or.inr ⟨⟨rfl, rfl⟩, less⟩
  refine (((sources.append letters ?_).append ends ?_).map fun fault =>
    (⟨.transition (.atom m) letter, fault⟩ : Diagnostic Fault)).congr fun spot e => ?_
  · rintro _ _ _ _ ⟨_, rfl, _⟩ ⟨_, rfl, _⟩
    exact Or.inr ⟨⟨rfl, rfl⟩, trivial⟩
  · rintro _ _ _ _ (⟨_, rfl, _⟩ | ⟨_, rfl, _⟩) ⟨t, _, _, rfl, _⟩
    · exact Or.inr ⟨⟨rfl, rfl⟩, trivial⟩
    · exact Or.inr ⟨⟨rfl, rfl⟩, trivial⟩
  · constructor
    · rintro ⟨_, (⟨undeclared, rfl, rfl⟩ | ⟨foreign, rfl, rfl⟩) |
        ⟨t, listed, unknown, rfl, rfl⟩, rfl⟩
      · exact ⟨⟨_, rfl⟩, .source given undeclared⟩
      · exact ⟨⟨_, rfl⟩, .letter given foreign⟩
      · obtain ⟨_, n, given, same, rfl⟩ := (mem t).1 listed
        cases same
        exact ⟨⟨_, rfl⟩, .target given (mt atom_mem_states_automaton.2 (of_decide_eq_true unknown))⟩
    · rintro ⟨⟨part, rfl⟩, found⟩
      cases found with
      | source _ undeclared => exact ⟨_, .inl (.inl ⟨undeclared, rfl, rfl⟩), rfl⟩
      | letter _ foreign => exact ⟨_, .inl (.inr ⟨foreign, rfl, rfl⟩), rfl⟩
      | @target _ n _ given undeclared =>
        refine ⟨_, .inr ⟨.atom n, (mem _).2 ⟨m, n, given, rfl, rfl⟩, ?_, rfl, rfl⟩, rfl⟩
        exact decide_eq_true (mt atom_mem_states_automaton.1 undeclared)

/-- What is wrong with a source, a letter or a target is wrong with a move. -/
theorem FaultAt.exists_move {source : State} {letter : Char} {part : Part} {e : Diagnostic Fault}
    (found : d.FaultAt (.move source letter part) e) :
    ∃ targets, ((source, letter), targets) ∈ d.automaton.moves := by
  cases found with
  | source given _ => exact given.exists_move
  | letter given _ => exact given.exists_move
  | target given _ => exact given.exists_move

/-- **The report** lists everything that is wrong with a definition, in order. -/
theorem lists_faults (d : Definition) :
    ListsInOrder Spot.Before d.FaultAt d.automaton.faults := by
  have first : ListsInOrder Spot.Before
      (fun spot (e : Diagnostic Fault) => d.start ∉ d.states ∧ spot = .start ∧
        e = ⟨.definition, .unknownStart (.atom d.start)⟩)
      (if d.automaton.start ∈ d.automaton.states then []
        else [⟨.definition, .unknownStart d.automaton.start⟩]) :=
    (ListsInOrder.ite _ _).congr fun _ _ => by rw [← atom_mem_states_automaton]; rfl
  have moves : ListsInOrder Spot.Before
      (fun spot e => ∃ move ∈ d.automaton.moves,
        (∃ part, spot = .move move.1.1 move.1.2 part) ∧ d.FaultAt spot e)
      (d.automaton.moves.flatMap d.automaton.faultsOfMove) := by
    refine .flatMap d.automaton.moves_ascending
      (fun move mem => lists_faultsOfMove (mem_moves_automaton.1 mem)) ?_
    rintro _ _ less _ _ _ _ ⟨⟨_, rfl⟩, _⟩ ⟨⟨_, rfl⟩, _⟩
    exact Or.inl less
  refine ((first.append (lists_accepting d) ?_).append moves ?_).congr fun spot e => ?_
  · rintro _ _ _ _ ⟨_, rfl, _⟩ ⟨⟨s, rfl⟩, _⟩
    trivial
  · rintro _ _ _ _ (⟨_, rfl, _⟩ | ⟨⟨s, rfl⟩, _⟩) ⟨_, _, ⟨_, rfl⟩, _⟩
    · trivial
    · trivial
  · constructor
    · rintro ((⟨undeclared, rfl, rfl⟩ | ⟨_, found⟩) | ⟨_, _, _, found⟩)
      · exact .start undeclared
      · exact found
      · exact found
    · intro found
      cases spot with
      | start =>
        obtain ⟨undeclared⟩ := found
        exact .inl (.inl ⟨undeclared, rfl, rfl⟩)
      | accepting state => exact .inl (.inr ⟨⟨state, rfl⟩, found⟩)
      | move source letter part =>
        obtain ⟨targets, mem⟩ := found.exists_move
        exact .inr ⟨_, mem, ⟨part, rfl⟩, found⟩

/-- **Building merges what is given, accepts what is sound and reports everything else**: a
definition is built just when it is sound, its automaton then is the one that it defines, and
otherwise the errors are what is wrong at its spots, each once and in order, with the transitions in
question written out. The order and the grouping of the transitions make no difference. -/
theorem builds_or_reports (d : Definition) :
    ((∃ a, d.build = .ok a) ↔ d.Sound) ∧
      (∀ a, d.build = .ok a ↔ d.Sound ∧ d.Defines a) ∧
      (∀ errors, d.build = .error errors ↔
        ¬ d.Sound ∧ ListsInOrder Spot.Before d.FaultAt errors) ∧
      (∀ errors, d.build = .error errors →
        ListsInOrder Spot.Before (fun spot text => (∃ e, d.FaultAt spot e) ∧ spot.shown = text)
          (errors.map (·.place.text))) ∧
      ∀ d', d.Agrees d' → d.build = d'.build := by
  have lists := lists_faults d
  have sound : d.Sound ↔ d.automaton.faults = [] := sound_iff.trans lists.eq_nil_iff.symm
  have built (a) : d.build = .ok a ↔ d.Sound ∧ d.automaton = a := by
    rw [build_eq_ok_iff, sound, faults_eq_nil_iff]
  have reported (errors) : d.build = .error errors ↔
      ¬ d.Sound ∧ ListsInOrder Spot.Before d.FaultAt errors := by
    rw [build_eq_error_iff, sound, lists.eq_iff fun _ _ => Spot.Before.asymm]
  refine ⟨?_, fun a => ?_, reported, fun errors failed => ?_, fun d' agrees => ?_⟩
  · simp only [built, exists_and_left, exists_eq', and_true]
  · rw [built]
    exact and_congr_right fun _ =>
      ⟨fun same => same ▸ defines_automaton d, fun defines => defines.eq_automaton.symm⟩
  · obtain ⟨_, listed⟩ := (reported errors).1 failed
    exact listed.map_shown (fun _ _ => FaultAt.shown_eq) fun _ _ _ same same' =>
      same.symm.trans same'
  · rw [build, build, agrees.automaton_eq]

-- a pair of a source and a letter is reported once, and not at all without targets
example :
    (build {
      start := "q9", states := ["q0", "q1"], alphabet := ['a'], accepting := ["q7", "q1", "q7"]
      transitions := [("q3", 'b', ["q2"]), ("q4", 'c', []), ("q0", 'a', ["q8"]),
        ("q3", 'b', ["q2", "q0"])] }).mapError (List.map fun e => (e.place.text, e.fault)) =
      .error [("definition", .unknownStart (.atom "q9")),
        ("definition", .unknownAccepting (.atom "q7")),
        ("δ(q0, a)", .unknownState (.atom "q8")), ("δ(q3, b)", .unknownState (.atom "q3")),
        ("δ(q3, b)", .foreignLetter 'b'), ("δ(q3, b)", .unknownState (.atom "q2"))] := by
  rfl

/-- A definition that gives the targets of one source and letter in two calls, and none to an
undeclared source. -/
def scattered : Definition where
  start := "q0"
  states := ["q0", "q1"]
  alphabet := ['a']
  transitions := [("q0", 'a', ["q1"]), ("q9", 'z', []), ("q0", 'a', ["q0"])]
  accepting := ["q1"]

/-- The same in one call. -/
def gathered : Definition where
  start := "q0"
  states := ["q1", "q0"]
  alphabet := ['a', 'a']
  transitions := [("q0", 'a', ["q0", "q1"])]
  accepting := ["q1"]

/-- The scattered and the gathered definition build one automaton, in which both targets are merged
and the source without targets is not met. -/
theorem builds_or_reports_scattered :
    scattered.Agrees gathered ∧ scattered.Sound ∧ scattered.build = gathered.build ∧
      ∃ a, scattered.build = .ok a ∧ scattered.Defines a ∧
        a.moves = [((.atom "q0", 'a'), .ofList [.atom "q0", .atom "q1"])] := by
  have leads (m : String) (letter : Char) (n : String) :
      scattered.Leads m letter n ↔ m = "q0" ∧ letter = 'a' ∧ (n = "q0" ∨ n = "q1") := by
    grind [Leads, scattered]
  have leads' (m : String) (letter : Char) (n : String) :
      gathered.Leads m letter n ↔ m = "q0" ∧ letter = 'a' ∧ (n = "q0" ∨ n = "q1") := by
    grind [Leads, gathered]
  have agrees : scattered.Agrees gathered := by
    refine ⟨rfl, fun name => ?_, fun letter => ?_, fun name => Iff.rfl, fun m letter n => ?_⟩
    · simp [scattered, gathered, or_comm]
    · simp [scattered, gathered]
    · rw [leads, leads']
  have sound : scattered.Sound := by
    refine ⟨by decide, by decide, fun m letter n given => ?_, fun m letter n given => ?_,
      fun m letter n given => ?_⟩
    · simp [scattered, ((leads m letter n).1 given).1]
    · simp [scattered, ((leads m letter n).1 given).2.1]
    · simpa [scattered] using ((leads m letter n).1 given).2.2
  obtain ⟨built, automata, _, _, same⟩ := builds_or_reports scattered
  obtain ⟨a, ok⟩ := built.2 sound
  have defines := ((automata a).1 ok).2
  refine ⟨agrees, sound, same gathered agrees, a, ok, defines, ?_⟩
  rw [defines.eq_automaton]
  decide +kernel

end Definition

end FormalLanguages.Automaton
