import FormalLanguages.Proofs.Automaton.Acceptance

/-! # Reading words backwards

`Automaton.reversed` turns all transitions round. Words may begin in any accepting state of the
original then, so it starts in an additional state that stands for all the others: its transitions
are those of the accepting states. It accepts a word when the original accepts the reversed word
(`Automaton.accepts_reversed`). -/

namespace FormalLanguages

/-- A state that stands for a set of states is not among them. -/
theorem State.ofSet_not_mem (members : SortedSet State) : .ofSet members ∉ members := by
  intro mem
  have smaller : sizeOf (State.ofSet members) < sizeOf members.toList :=
    List.sizeOf_lt_of_mem mem
  have larger : sizeOf (State.ofSet members) = 1 + sizeOf members.toList :=
    State.merged.sizeOf_spec _
  omega

namespace Automaton

/-- The state in which a word begins when it is read backwards. -/
def lastState (a : Automaton) : State := .ofSet a.states

/-- A transition turned round, also from the additional state if it enters an accepting state. -/
def backward (a : Automaton) (t : Transition) : List Transition :=
  ⟨t.target, t.letter, t.source⟩ ::
    if t.target ∈ a.accepting then [⟨a.lastState, t.letter, t.source⟩] else []

/-- The automaton that **reads words backwards**. -/
def reversed (a : Automaton) : Automaton where
  start := a.lastState
  states := a.states.insert a.lastState
  alphabet := a.alphabet
  transitions := a.transitions.bind a.backward
  -- without any letter the additional state stands for the accepting ones as well
  accepting := if a.start ∈ a.accepting then .ofList [a.start, a.lastState] else {a.start}

variable {a : Automaton} {s t : State} {c : Char} {word : List Char}

/-! ## The parts of the reversed automaton -/

@[simp] theorem start_reversed : a.reversed.start = a.lastState := rfl

/-- The additional state is not declared. -/
theorem lastState_not_declared : a.lastState ∉ a.states := State.ofSet_not_mem a.states

/-- A declared state is not the additional one. -/
theorem ne_lastState (declared : s ∈ a.states) : s ≠ a.lastState := fun same =>
  lastState_not_declared (same ▸ declared)

/-- **The transitions** are those of the original turned round; those of accepting states leave the
additional state as well. -/
theorem mem_transitions_reversed :
    ⟨s, c, t⟩ ∈ a.reversed.transitions ↔
      ⟨t, c, s⟩ ∈ a.transitions ∨
        s = a.lastState ∧ ∃ u, u ∈ a.accepting ∧ ⟨t, c, u⟩ ∈ a.transitions := by
  show _ ∈ a.transitions.bind a.backward ↔ _
  rw [SortedSet.mem_bind]
  constructor
  · rintro ⟨⟨source, letter, target⟩, mem, turned⟩
    rcases List.mem_cons.1 turned with same | also
    · cases same
      exact .inl mem
    · obtain ⟨accepting, also⟩ := List.mem_ite_nil_right.1 also
      cases List.mem_singleton.1 also
      exact .inr ⟨rfl, target, accepting, mem⟩
  · rintro (mem | ⟨rfl, u, accepting, mem⟩)
    · exact ⟨_, mem, List.mem_cons_self⟩
    · refine ⟨_, mem, List.mem_cons_of_mem _ (List.mem_ite_nil_right.2 ⟨accepting, ?_⟩)⟩
      exact List.mem_singleton_self _

/-- A run backwards ends in the start; the additional state is accepting when the start is. -/
theorem mem_accepting_reversed :
    s ∈ a.reversed.accepting ↔ s = a.start ∨ a.start ∈ a.accepting ∧ s = a.lastState := by
  show s ∈ (if a.start ∈ a.accepting then _ else _) ↔ _
  split
  · rename_i accepting
    simp [accepting]
  · rename_i other
    simp [other]

/-- The reversed automaton of a well-formed automaton is well formed. -/
theorem wellFormed_reversed (wf : a.WellFormed) : a.reversed.WellFormed := by
  have inside : ∀ {s}, s ∈ a.states → s ∈ a.reversed.states :=
    fun declared => SortedSet.mem_insert.2 (.inr declared)
  have last : a.lastState ∈ a.reversed.states := SortedSet.mem_insert.2 (.inl rfl)
  refine ⟨last, fun s accepting => ?_, fun t mem => ?_, fun t mem => ?_, fun t mem => ?_⟩
  · rcases mem_accepting_reversed.1 accepting with rfl | ⟨_, rfl⟩
    · exact inside wf.start_mem
    · exact last
  · rcases mem_transitions_reversed.1 mem with turned | ⟨same, _⟩
    · exact inside (wf.target_mem _ turned)
    · exact same ▸ last
  · rcases mem_transitions_reversed.1 mem with turned | ⟨_, _, _, turned⟩
    · exact wf.letter_mem ⟨t.target, t.letter, t.source⟩ turned
    · exact wf.letter_mem ⟨t.target, t.letter, _⟩ turned
  · rcases mem_transitions_reversed.1 mem with turned | ⟨_, _, _, turned⟩
    · exact inside (wf.source_mem _ turned)
    · exact inside (wf.source_mem _ turned)

/-! ## Runs backwards -/

/-- The last letter of a run is read by its last transition. -/
theorem run_concat_iff :
    a.Run s (word ++ [c]) t ↔ ∃ u, a.Run s word u ∧ ⟨u, c, t⟩ ∈ a.transitions := by
  rw [← mem_activeAfter_singleton, activeAfter_append, activeAfter_cons, activeAfter_nil, mem_step]
  exact exists_congr fun u => and_congr_left fun _ => mem_activeAfter_singleton

/-- **Reading backwards from a state** follows a run of the original from the start to this state,
from its end. -/
theorem recognizesFrom_reversed_iff (wf : a.WellFormed) (declared : s ∈ a.states) :
    a.reversed.RecognizesFrom s word ↔ a.Run a.start word.reverse s := by
  induction word generalizing s with
  | nil =>
    rw [recognizesFrom_nil_iff, mem_accepting_reversed]
    constructor
    · rintro (rfl | ⟨_, last⟩)
      · exact .nil _
      · exact absurd last (ne_lastState declared)
    · intro run
      cases run
      exact .inl rfl
  | cons c rest ih =>
    rw [recognizesFrom_cons_iff, List.reverse_cons, run_concat_iff]
    refine exists_congr fun u => ?_
    rw [mem_transitions_reversed, or_iff_left fun also => ne_lastState declared also.1, and_comm]
    exact and_congr_left fun turned => ih (wf.source_mem _ turned)

/-- Reading backwards from the additional state follows a run of the original to an accepting
state. -/
theorem recognizesFrom_lastState_iff (wf : a.WellFormed) :
    a.reversed.RecognizesFrom a.lastState word ↔ a.Recognizes word.reverse := by
  cases word with
  | nil =>
    rw [recognizesFrom_nil_iff, mem_accepting_reversed, List.reverse_nil, recognizes_iff,
      recognizesFrom_nil_iff, or_iff_right (ne_lastState wf.start_mem).symm]
    exact and_iff_left rfl
  | cons c rest =>
    rw [recognizesFrom_cons_iff, List.reverse_cons]
    constructor
    · rintro ⟨u, turned, others⟩
      rcases mem_transitions_reversed.1 turned with mem | ⟨_, t, accepting, mem⟩
      · exact absurd (wf.target_mem _ mem) lastState_not_declared
      · have run := (recognizesFrom_reversed_iff wf (wf.source_mem _ mem)).1 others
        exact ⟨t, accepting, run_concat_iff.2 ⟨u, run, mem⟩⟩
    · rintro ⟨t, accepting, run⟩
      obtain ⟨u, run, mem⟩ := run_concat_iff.1 run
      exact ⟨u, mem_transitions_reversed.2 (.inr ⟨rfl, t, accepting, mem⟩),
        (recognizesFrom_reversed_iff wf (wf.source_mem _ mem)).2 run⟩

/-- **The reversed automaton accepts the reversed words.** -/
theorem accepts_reversed (wf : a.WellFormed) (word : List Char) :
    a.reversed.accepts word = a.accepts word.reverse := by
  rw [Bool.eq_iff_iff, accepts_iff_recognizes, accepts_iff_recognizes, recognizes_iff,
    start_reversed]
  exact recognizesFrom_lastState_iff wf

end Automaton

end FormalLanguages
