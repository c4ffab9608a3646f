import FormalLanguages.Automaton.Definition
import FormalLanguages.Proofs.Automaton.Determinization

/-! # Which automata are well formed

An automaton is well formed when nothing is found wrong with it (`Automaton.faults_eq_nil_iff`), so
what a definition builds is well formed. The deterministic automaton is well formed whatever it is
made of, since it declares what its search finds (`Automaton.wellFormed_determinize`). -/

namespace FormalLanguages.Automaton

variable {a : Automaton}

/-! ## Faults -/

/-- Every move has a target. -/
theorem exists_target_of_mem_moves {move : (State × Char) × SortedSet State}
    (mem : move ∈ a.moves) : ∃ target, target ∈ move.2 := by
  obtain ⟨source, listed, rfl⟩ := List.mem_map.1 mem
  obtain ⟨t, ht, rfl⟩ := mem_sources.1 listed
  exact ⟨t.target, mem_targets.2 ht⟩

/-- Nothing is wrong with a move when its source, its letter and its targets are declared. -/
theorem faultsOfMove_eq_nil_iff {move : (State × Char) × SortedSet State} :
    a.faultsOfMove move = [] ↔
      move.1.1 ∈ a.states ∧ move.1.2 ∈ a.alphabet ∧
        ∀ target, target ∈ move.2 → target ∈ a.states := by
  simp only [faultsOfMove, List.map_eq_nil_iff, List.append_eq_nil_iff, ite_eq_left_iff,
    List.cons_ne_nil, imp_false, Classical.not_not, List.filter_eq_nil_iff, SortedSet.mem_toList,
    decide_eq_true_eq, and_assoc]

/-- An automaton is well formed just when it has no faults. -/
theorem faults_eq_nil_iff : a.faults = [] ↔ a.WellFormed := by
  have moves : a.moves.flatMap a.faultsOfMove = [] ↔
      ∀ t, t ∈ a.transitions →
        t.source ∈ a.states ∧ t.letter ∈ a.alphabet ∧ t.target ∈ a.states := by
    simp only [List.flatMap_eq_nil_iff, Automaton.moves, List.forall_mem_map, mem_sources,
      faultsOfMove_eq_nil_iff]
    constructor
    · intro each t ht
      obtain ⟨source, letter, targets⟩ := each (t.source, t.letter) ⟨t, ht, rfl⟩
      exact ⟨source, letter, targets t.target (mem_targets.2 ht)⟩
    · rintro each _ ⟨t, ht, rfl⟩
      refine ⟨(each t ht).1, (each t ht).2.1, fun target entered => ?_⟩
      exact (each _ (mem_targets.1 entered)).2.2
  simp only [faults, List.append_eq_nil_iff, ite_eq_left_iff, List.cons_ne_nil, imp_false,
    Classical.not_not, List.map_eq_nil_iff, List.filter_eq_nil_iff, SortedSet.mem_toList,
    decide_eq_true_eq, moves]
  constructor
  · rintro ⟨⟨start, accepting⟩, each⟩
    exact ⟨start, accepting, fun t ht => (each t ht).1, fun t ht => (each t ht).2.1,
      fun t ht => (each t ht).2.2⟩
  · intro wf
    exact ⟨⟨wf.start_mem, wf.accepting_mem⟩,
      fun t ht => ⟨wf.source_mem t ht, wf.letter_mem t ht, wf.target_mem t ht⟩⟩

/-- **A definition builds** its automaton when that is well formed. -/
theorem Definition.build_eq_ok_iff {d : Definition} :
    d.build = .ok a ↔ d.automaton.WellFormed ∧ d.automaton = a := by
  rw [← faults_eq_nil_iff, build]
  split
  · rename_i none
    simp [none]
  · rename_i some
    exact iff_of_false nofun fun built => some built.1

/-- Otherwise everything that is wrong is reported. -/
theorem Definition.build_eq_error_iff {d : Definition} {errors : List (Diagnostic Fault)} :
    d.build = .error errors ↔ d.automaton.faults ≠ [] ∧ d.automaton.faults = errors := by
  rw [build]
  split
  · rename_i none
    exact iff_of_false nofun fun failed => failed.1 none
  · rename_i some
    rw [Except.error.injEq, and_iff_right some]

/-! ## Determinization -/

/-- **The deterministic automaton is well formed**, whether or not the original is: its states stand
for the sets of states that are active together, and a step leads from such a set to another one. -/
theorem wellFormed_determinize (a : Automaton) : a.determinize.WellFormed := by
  refine ⟨?_, fun s accepting => ?_, fun t ht => ?_, fun t ht => ?_, fun t ht => ?_⟩
  · exact mem_states_determinize.2 ⟨{a.start}, activeTogether_start a, rfl⟩
  · obtain ⟨active, together, _, rfl⟩ := mem_accepting_determinize.1 accepting
    exact mem_states_determinize.2 ⟨active, together, rfl⟩
  · obtain ⟨active, letter, together, _, _, rfl⟩ := mem_transitions_determinize.1 ht
    exact mem_states_determinize.2 ⟨active, together, rfl⟩
  · obtain ⟨active, letter, _, mem, _, rfl⟩ := mem_transitions_determinize.1 ht
    exact mem
  · obtain ⟨active, letter, together, mem, some_active, rfl⟩ := mem_transitions_determinize.1 ht
    exact mem_states_determinize.2 ⟨_, together.step mem some_active, rfl⟩

end FormalLanguages.Automaton
