import FormalLanguages.Proofs.Hierarchy.ContextFree
import FormalLanguages.Proofs.RightLinear.OfAutomaton

/-! # The type of the grammar of an automaton

The grammar of an automaton is right-linear, so its type hangs on its empty right-hand sides. They
belong to an accepting start and to the accepting states that cannot be left. The grammar is of type
3 when no state but the start has one, and then no transition enters the start
(`Automaton.StopsAtStart`). Otherwise it is of type 2 (`Automaton.classify_toGrammar`). -/

namespace FormalLanguages.Automaton

variable {a : Automaton}

/-- An automaton **stops at its start only** when all other accepting states can be left, and the
start, if it is accepting, is never entered. -/
structure StopsAtStart (a : Automaton) : Prop where
  /-- Some transition leaves each accepting state but the start. -/
  left_of_accepting : ∀ s, s ∈ a.accepting → s ≠ a.start → ∃ t, t ∈ a.transitions ∧ t.source = s
  /-- The start is not accepting, or no transition enters it. -/
  start_not_entered : a.start ∉ a.accepting ∨ ∀ t, t ∈ a.transitions → t.target ≠ a.start

/-- The states that need an empty right-hand side are the start alone, if the automaton stops at its
start only. -/
theorem StopsAtStart.eq_start (stopping : a.StopsAtStart) {s : State} (stops : s ∈ a.stops) :
    s = a.start := by
  obtain ⟨accepting, start | stuck⟩ := mem_stops.1 stops
  · exact start
  · refine Classical.byContradiction fun other => ?_
    obtain ⟨t, mem, leaves⟩ := stopping.left_of_accepting s accepting other
    exact stuck t mem leaves

section Declared

variable (wf : a.WellFormed)

include wf

/-- The nonterminal of a state has an empty right-hand side when the state needs one. -/
theorem nil_mem_toGrammar_iff {s : State} (declared : s ∈ a.states) :
    ⟨a.stateName s, []⟩ ∈ a.toGrammar.productions ↔ s ∈ a.stops := by
  rw [mem_productions_of_state wf declared]
  simp

/-- **The start nonterminal is isolated** when no transition enters the start, since no other state
has its name. -/
theorem startIsolated_toGrammar_iff :
    a.toGrammar.StartIsolated ↔ ∀ t, t ∈ a.transitions → t.target ≠ a.start := by
  constructor
  · intro isolated t mem entered
    refine isolated ⟨a.stateName t.source, _⟩
      (mem_productions_toGrammar.2 (.inr ⟨t, mem, .inl rfl⟩)) ?_
    rw [entered, start_toGrammar]
    exact .tail _ (.head _)
  · intro never p mem occurs
    rcases mem_productions_toGrammar.1 mem with ⟨s, _, rfl⟩ | ⟨t, ht, rfl | ⟨_, rfl⟩⟩
    · cases occurs
    · have same : a.stateName a.start = a.stateName t.target := by simpa using occurs
      have entered := stateName_injective wf.start_mem (wf.target_mem t ht) same
      exact never t ht entered.symm
    · simp at occurs

/-- **The grammar is regular** when the automaton stops at its start only. -/
theorem regular_toGrammar_iff : a.toGrammar.Regular ↔ a.StopsAtStart := by
  constructor
  · intro regular
    refine ⟨fun s accepting other => ?_, ?_⟩
    · refine Classical.byContradiction fun none => other ?_
      -- a state that cannot be left has an empty right-hand side, like the start at most
      have stops : s ∈ a.stops :=
        mem_stops.2 ⟨accepting, .inr fun t mem leaves => none ⟨t, mem, leaves⟩⟩
      have declared := wf.accepting_mem s accepting
      have vanishes := (nil_mem_toGrammar_iff wf declared).2 stops
      exact stateName_injective declared wf.start_mem (regular.start_of_empty _ vanishes).1
    · refine Classical.or_iff_not_imp_left.2 fun accepting => ?_
      have stops : a.start ∈ a.stops := mem_stops.2 ⟨Classical.not_not.1 accepting, .inl rfl⟩
      have vanishes := (nil_mem_toGrammar_iff wf wf.start_mem).2 stops
      exact (startIsolated_toGrammar_iff wf).1 (regular.start_of_empty _ vanishes).2
  · intro stopping
    refine ⟨.inl rightLinear_toGrammar, fun name mem => ?_⟩
    rcases mem_productions_toGrammar.1 mem with ⟨s, stops, same⟩ | ⟨t, _, same | ⟨_, same⟩⟩
    · cases same
      have start := stopping.eq_start stops
      have accepting : a.start ∈ a.accepting := start ▸ (mem_stops.1 stops).1
      have never := stopping.start_not_entered.resolve_left (Classical.not_not.2 accepting)
      exact ⟨congrArg a.stateName start, (startIsolated_toGrammar_iff wf).2 never⟩
    · cases same
    · cases same

end Declared

/-- **The type of the grammar of an automaton**: it is of type 3 when every accepting state but the
start can be left and the start is not accepting or never entered, and of type 2 in all other cases.
-/
theorem classify_toGrammar (wf : a.WellFormed) :
    (a.toGrammar.classify = .ok .regular ↔ a.StopsAtStart) ∧
      (a.toGrammar.classify = .ok .contextFree ↔ ¬ a.StopsAtStart) := by
  have wfg := wellFormed_toGrammar wf
  have regular : a.toGrammar.classify = .ok .regular ↔ a.StopsAtStart := by
    rw [Grammar.classify_eq_regular_iff wfg, regular_toGrammar_iff wf]
  refine ⟨regular, ?_⟩
  rw [← regular]
  rcases Grammar.classify_of_wellFormed wfg with found | found
  · simp [found]
  · simp [found]

/-- An automaton that never enters its start, though it enters a state of the same written form.
Both are accepting, and the other one can be left. -/
def echoing : Automaton where
  start := .atom "\x7bq\x7d"
  states := .ofList [.atom "\x7bq\x7d", .merge [.atom "q"]]
  alphabet := .ofList ['a']
  transitions := .ofList [
    ⟨.atom "\x7bq\x7d", 'a', .merge [.atom "q"]⟩, ⟨.merge [.atom "q"], 'a', .merge [.atom "q"]⟩]
  accepting := .ofList [.atom "\x7bq\x7d", .merge [.atom "q"]]

/-- The grammar of the echoing automaton is regular, since the entered state is not the start. That
of the lookalikes is not, because one of them is accepting and cannot be left. -/
theorem classify_toGrammar_echoing :
    echoing.WellFormed ∧ echoing.toGrammar.classify = .ok .regular ∧
      lookalikes.WellFormed ∧ lookalikes.toGrammar.classify = .ok .contextFree := by
  have wf : echoing.WellFormed := by decide +kernel
  have stopping : echoing.StopsAtStart := ⟨by decide +kernel, .inr (by decide +kernel)⟩
  have wf' : lookalikes.WellFormed := by decide +kernel
  have stuck : ¬ lookalikes.StopsAtStart := by
    intro stopping
    have leaves := stopping.left_of_accepting (.atom "\x7bq\x7d'") (by decide +kernel)
      (by decide +kernel)
    exact absurd leaves (by decide +kernel)
  exact ⟨wf, (classify_toGrammar wf).1.2 stopping, wf', (classify_toGrammar wf').2.2 stuck⟩

end FormalLanguages.Automaton
