import FormalLanguages.Automaton.Determinize
import FormalLanguages.Proofs.Automaton.Acceptance

/-! # The subset construction is correct

`Automaton.ActiveTogether` says which sets of states a word over the alphabet can activate, and the
search finds exactly these (`mem_activeSets_iff`). The states and transitions of the deterministic
automaton are therefore known, and it follows the original automaton in lockstep: after any word it
is in the one state that stands for the set of states that are active in the original
(`activeAfter_determinize`). -/

namespace FormalLanguages.Automaton

/-! ## The sets that are found -/

section ActiveTogether

variable {a : Automaton} {active : SortedSet State}

/-- **States that are active together**: some word over the alphabet activates exactly these states,
and at least one. -/
def ActiveTogether (a : Automaton) (active : SortedSet State) : Prop :=
  (∃ s, s ∈ active) ∧
    ∃ word : List Char, (∀ letter ∈ word, letter ∈ a.alphabet) ∧
      a.activeAfter {a.start} word = active

/-- The start is active before anything is read. -/
theorem activeTogether_start (a : Automaton) : a.ActiveTogether {a.start} := by
  refine ⟨⟨a.start, SortedSet.mem_singleton.2 rfl⟩, [], ?_, rfl⟩
  intro letter h
  exact absurd h List.not_mem_nil

/-- One more letter leads to a set of states that are active together, if it leads anywhere. -/
theorem ActiveTogether.step (h : a.ActiveTogether active) {letter : Char}
    (mem : letter ∈ a.alphabet) (some_active : ∃ s, s ∈ a.step active letter) :
    a.ActiveTogether (a.step active letter) := by
  obtain ⟨_, word, letters, rfl⟩ := h
  refine ⟨some_active, word ++ [letter], ?_, ?_⟩
  · intro c hc
    rcases List.mem_append.1 hc with hc | hc
    · exact letters c hc
    · rw [List.mem_singleton.1 hc]
      exact mem
  · rw [activeAfter_append, activeAfter_cons, activeAfter_nil]

/-- The successors of a set are its non-empty steps. -/
theorem mem_successors {next : SortedSet State} :
    next ∈ a.successors active ↔
      (∃ letter, letter ∈ a.alphabet ∧ a.step active letter = next) ∧ ∃ s, s ∈ next := by
  simp only [successors, List.mem_filter, List.mem_map, SortedSet.mem_toList, Bool.not_eq_true',
    SortedSet.isEmpty_eq_false_iff]

/-- Steps along a word that leaves some state active are steps of the search. -/
theorem reaches_activeAfter {word : List Char} (letters : ∀ letter ∈ word, letter ∈ a.alphabet)
    (h : Reaches a.successors {a.start} active)
    (some_active : ∃ s, s ∈ a.activeAfter active word) :
    Reaches a.successors {a.start} (a.activeAfter active word) := by
  induction word generalizing active with
  | nil => exact h
  | cons letter rest ih =>
    rw [activeAfter_cons] at some_active ⊢
    -- what is active in the end was never empty on the way
    have step_active : ∃ s, s ∈ a.step active letter := by
      obtain ⟨t, ht⟩ := some_active
      obtain ⟨s, hs, _⟩ := mem_activeAfter.1 ht
      exact ⟨s, hs⟩
    have next : a.step active letter ∈ a.successors active :=
      mem_successors.2 ⟨⟨letter, letters letter List.mem_cons_self, rfl⟩, step_active⟩
    exact ih (fun c hc => letters c (List.mem_cons_of_mem _ hc)) (.step h next) some_active

/-- The search finds what the set of the start reaches. -/
theorem mem_activeSets : active ∈ a.activeSets ↔ Reaches a.successors {a.start} active :=
  SearchSpace.mem_explore

/-- **The search is exact**: it finds the sets of states that are active together. -/
theorem mem_activeSets_iff : active ∈ a.activeSets ↔ a.ActiveTogether active := by
  rw [mem_activeSets]
  constructor
  · intro h
    induction h with
    | refl => exact activeTogether_start a
    | step _ mem ih =>
      obtain ⟨⟨letter, hl, rfl⟩, some_active⟩ := mem_successors.1 mem
      exact ih.step hl some_active
  · rintro ⟨some_active, word, letters, rfl⟩
    exact reaches_activeAfter letters .refl some_active

end ActiveTogether

/-! ## The parts of the deterministic automaton -/

section Parts

variable {a : Automaton}

/-- The states stand for the sets of states that are active together. -/
theorem mem_states_determinize {state : State} :
    state ∈ a.determinize.states ↔ ∃ active, a.ActiveTogether active ∧ state = .ofSet active := by
  simp only [determinize, SortedSet.mem_image, mem_activeSets_iff, eq_comm]

/-- An accepting state stands for a set that has an accepting state. -/
theorem mem_accepting_determinize {state : State} :
    state ∈ a.determinize.accepting ↔
      ∃ active, a.ActiveTogether active ∧ (∃ s, s ∈ active ∧ s ∈ a.accepting) ∧
        state = .ofSet active := by
  show state ∈ (a.activeSets.filter a.meetsAccepting).image .ofSet ↔ _
  simp only [SortedSet.mem_image, SortedSet.mem_filter, mem_activeSets_iff, meetsAccepting_iff,
    and_assoc, eq_comm (a := state)]

/-- The transitions of one set lead to the set of its step, on all letters that lead anywhere. -/
theorem mem_mergedTransitions {active : SortedSet State} {t : Transition} :
    t ∈ a.mergedTransitions active ↔
      ∃ letter, letter ∈ a.alphabet ∧ (∃ s, s ∈ a.step active letter) ∧
        t = ⟨.ofSet active, letter, .ofSet (a.step active letter)⟩ := by
  rw [mergedTransitions, List.mem_filterMap]
  refine exists_congr fun letter => and_congr SortedSet.mem_toList ?_
  show (if (a.step active letter).isEmpty then none
      else some (⟨.ofSet active, letter, .ofSet (a.step active letter)⟩ : Transition)) = some t ↔ _
  rw [← SortedSet.isEmpty_eq_false_iff]
  by_cases h : (a.step active letter).isEmpty = true
  · simp [h]
  · simp [h, eq_comm]

/-- **The transitions** lead from every set of states that are active together to its step, on all
letters that lead anywhere. -/
theorem mem_transitions_determinize {t : Transition} :
    t ∈ a.determinize.transitions ↔
      ∃ active letter, a.ActiveTogether active ∧ letter ∈ a.alphabet ∧
        (∃ s, s ∈ a.step active letter) ∧
        t = ⟨.ofSet active, letter, .ofSet (a.step active letter)⟩ := by
  show t ∈ a.activeSets.bind a.mergedTransitions ↔ _
  simp only [SortedSet.mem_bind, mem_activeSets_iff, mem_mergedTransitions, exists_and_left]

/-- A transition from the state that stands for a set leads to its step. -/
theorem target_determinize {active : SortedSet State} {letter : Char} {target : State}
    (h : ⟨.ofSet active, letter, target⟩ ∈ a.determinize.transitions) :
    target = .ofSet (a.step active letter) := by
  obtain ⟨other, c, _, _, _, same⟩ := mem_transitions_determinize.1 h
  obtain ⟨hs, rfl, rfl⟩ := Transition.mk.inj same
  rw [State.ofSet_inj.1 hs]

/-- **The automaton is deterministic.** -/
theorem isDeterministic_determinize (a : Automaton) : a.determinize.isDeterministic = true := by
  rw [isDeterministic_iff]
  intro t ht
  obtain ⟨active, letter, _, _, _, rfl⟩ := mem_transitions_determinize.1 ht
  ext target
  rw [mem_targets, SortedSet.mem_singleton]
  constructor
  · exact target_determinize
  · rintro rfl
    exact ht

end Parts

/-! ## Lockstep -/

section Lockstep

variable {a : Automaton} {active : SortedSet State}

/-- The **counterpart** of a set of active states: the state that stands for it alone, and nothing
when no state is active. -/
def counterpart (active : SortedSet State) : SortedSet State :=
  if active.isEmpty then ∅ else {.ofSet active}

theorem mem_counterpart {state : State} :
    state ∈ counterpart active ↔ (∃ s, s ∈ active) ∧ state = .ofSet active := by
  rw [← SortedSet.isEmpty_eq_false_iff]
  unfold counterpart
  by_cases h : active.isEmpty = true
  · simp [h]
  · simp [h]

/-- **Tracked** sets of active states: the states of the set, if there are any, are active
together. -/
def Tracked (a : Automaton) (active : SortedSet State) : Prop :=
  (∃ s, s ∈ active) → a.ActiveTogether active

/-- A step that leaves some state active reads a letter of the alphabet. -/
theorem letter_mem_of_mem_step (wf : a.WellFormed) {letter : Char} {target : State}
    (h : target ∈ a.step active letter) : letter ∈ a.alphabet := by
  obtain ⟨source, _, mem⟩ := mem_step.1 h
  exact wf.letter_mem _ mem

/-- Tracked sets stay tracked, also on letters outside of the alphabet. -/
theorem Tracked.step (wf : a.WellFormed) (h : a.Tracked active) (letter : Char) :
    a.Tracked (a.step active letter) := by
  rintro ⟨target, ht⟩
  obtain ⟨source, hs, _⟩ := mem_step.1 ht
  exact (h ⟨source, hs⟩).step (letter_mem_of_mem_step wf ht) ⟨target, ht⟩

/-- **One letter in lockstep**: the counterpart of a tracked set steps to the counterpart of the
step. -/
theorem step_counterpart (wf : a.WellFormed) (h : a.Tracked active) (letter : Char) :
    a.determinize.step (counterpart active) letter = counterpart (a.step active letter) := by
  ext target
  rw [mem_step, mem_counterpart]
  constructor
  · rintro ⟨state, mem, first⟩
    obtain ⟨_, rfl⟩ := mem_counterpart.1 mem
    have same := target_determinize first
    obtain ⟨other, c, _, _, some_active, eq⟩ := mem_transitions_determinize.1 first
    obtain ⟨hs, rfl, _⟩ := Transition.mk.inj eq
    rw [← State.ofSet_inj.1 hs] at some_active
    exact ⟨some_active, same⟩
  · rintro ⟨⟨t, ht⟩, rfl⟩
    obtain ⟨s, hs, _⟩ := mem_step.1 ht
    refine ⟨.ofSet active, mem_counterpart.2 ⟨⟨s, hs⟩, rfl⟩, mem_transitions_determinize.2 ?_⟩
    exact ⟨active, letter, h ⟨s, hs⟩, letter_mem_of_mem_step wf ht, ⟨t, ht⟩, rfl⟩

/-- **A word in lockstep**: after a word the counterpart of a tracked set has become the counterpart
of what is active after it, and this is tracked. -/
theorem activeAfter_counterpart (wf : a.WellFormed) (h : a.Tracked active) (word : List Char) :
    a.determinize.activeAfter (counterpart active) word = counterpart (a.activeAfter active word) ∧
      a.Tracked (a.activeAfter active word) := by
  induction word generalizing active with
  | nil => exact ⟨rfl, h⟩
  | cons letter rest ih =>
    rw [activeAfter_cons, activeAfter_cons, step_counterpart wf h]
    exact ih (h.step wf letter)

/-- After any word the deterministic automaton is in the counterpart of the states that are active in
the original. -/
theorem activeAfter_determinize (wf : a.WellFormed) (word : List Char) :
    a.determinize.activeAfter {a.determinize.start} word =
        counterpart (a.activeAfter {a.start} word) ∧
      a.Tracked (a.activeAfter {a.start} word) := by
  have start : counterpart {a.start} = {a.determinize.start} := by
    ext state
    rw [mem_counterpart, SortedSet.mem_singleton]
    exact and_iff_right ⟨a.start, SortedSet.mem_singleton.2 rfl⟩
  rw [← start]
  exact activeAfter_counterpart wf (fun _ => activeTogether_start a) word

/-- The counterpart of a tracked set meets the accepting states when the set does. -/
theorem meetsAccepting_counterpart (h : a.Tracked active) :
    a.determinize.meetsAccepting (counterpart active) = a.meetsAccepting active := by
  rw [Bool.eq_iff_iff, meetsAccepting_iff, meetsAccepting_iff]
  constructor
  · rintro ⟨state, mem, accepting⟩
    obtain ⟨_, rfl⟩ := mem_counterpart.1 mem
    obtain ⟨other, _, meets, same⟩ := mem_accepting_determinize.1 accepting
    rw [State.ofSet_inj.1 same]
    exact meets
  · rintro ⟨s, hs, accepting⟩
    refine ⟨.ofSet active, mem_counterpart.2 ⟨⟨s, hs⟩, rfl⟩, mem_accepting_determinize.2 ?_⟩
    exact ⟨active, h ⟨s, hs⟩, ⟨s, hs, accepting⟩, rfl⟩

/-- The deterministic automaton accepts the same words. -/
theorem accepts_determinize (wf : a.WellFormed) (word : List Char) :
    a.determinize.accepts word = a.accepts word := by
  obtain ⟨lockstep, tracked⟩ := activeAfter_determinize wf word
  rw [accepts_eq, accepts_eq, lockstep, meetsAccepting_counterpart tracked]

end Lockstep

/-- **The subset construction is correct**: the result accepts the same words, it is deterministic,
its states are those that stand for the sets of states that are active together, and its transitions
lead from each of them to its step, on exactly the letters of the alphabet that lead anywhere. -/
theorem determinize_correct {a : Automaton} (wf : a.WellFormed) :
    (∀ word, a.determinize.accepts word = a.accepts word) ∧
      a.determinize.isDeterministic = true ∧
      (∀ state, state ∈ a.determinize.states ↔
        ∃ active, a.ActiveTogether active ∧ state = .ofSet active) ∧
      ∀ t, t ∈ a.determinize.transitions ↔
        ∃ active letter, a.ActiveTogether active ∧ letter ∈ a.alphabet ∧
          (∃ s, s ∈ a.step active letter) ∧
          t = ⟨.ofSet active, letter, .ofSet (a.step active letter)⟩ :=
  ⟨accepts_determinize wf, isDeterministic_determinize a, fun _ => mem_states_determinize,
    fun _ => mem_transitions_determinize⟩

/-- An automaton with two choices on one letter and a state that is itself merged from a merged
state. It accepts the words over `a` and `b` whose last letter but one is an `a`. -/
def nested : Automaton where
  start := .atom "q"
  states := .ofList [.atom "q", .merge [.atom "q"], .merge [.merge [.atom "q"]]]
  alphabet := .ofList ['a', 'b']
  transitions := .ofList [
    ⟨.atom "q", 'a', .atom "q"⟩, ⟨.atom "q", 'b', .atom "q"⟩,
    ⟨.atom "q", 'a', .merge [.atom "q"]⟩,
    ⟨.merge [.atom "q"], 'a', .merge [.merge [.atom "q"]]⟩,
    ⟨.merge [.atom "q"], 'b', .merge [.merge [.atom "q"]]⟩]
  accepting := .ofList [.merge [.merge [.atom "q"]]]

/-- The nested automaton has two choices, its deterministic version has none, and both accept `ab`
and refuse a letter outside of the alphabet. -/
theorem determinize_nested :
    nested.WellFormed ∧ nested.isDeterministic = false ∧
      nested.determinize.isDeterministic = true ∧
      nested.determinize.accepts ['a', 'b'] = true ∧
      nested.determinize.accepts ['a', 'c'] = false := by
  have wf : nested.WellFormed := by decide +kernel
  obtain ⟨same, deterministic, _⟩ := determinize_correct wf
  refine ⟨wf, by decide +kernel, deterministic, ?_, ?_⟩
  · rw [same]
    decide +kernel
  · rw [same]
    decide +kernel

end FormalLanguages.Automaton
