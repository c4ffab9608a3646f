import FormalLanguages.Proofs.Automaton.Integrity

/-! # Determinizing a deterministic automaton

In a deterministic automaton a word never activates more than one state
(`Automaton.Run.activeAfter_eq`). The sets of states that are active together are the sets of one reachable
state then, so determinizing only renames the part of the automaton that is reachable: it wraps
every state into a state of its own. All states of a deterministic automaton that was made from
another one are reachable, and determinizing once more wraps all of them once more
(`Automaton.determinize_wraps`). -/

namespace FormalLanguages

namespace State

/-- A state **wrapped** once more: the state that stands for it alone. -/
def wrapped (s : State) : State := .merge [s]

theorem ofSet_singleton (s : State) : ofSet {s} = s.wrapped := rfl

/-- Different states are wrapped into different states. -/
theorem wrapped_injective {s t : State} (same : s.wrapped = t.wrapped) : s = t := by
  have members := merge_eq_merge_iff.1 same s
  exact List.mem_singleton.1 (members.1 (List.mem_singleton_self s))

end State

namespace Automaton

variable {a b : Automaton} {s t : State} {c : Char} {word : List Char} {active : SortedSet State}

/-! ## Reachable states -/

/-- A state is **reachable** when some run leads to it from the start. -/
def Reachable (a : Automaton) (s : State) : Prop := ∃ word, a.Run a.start word s

/-- A run reads letters of the alphabet. -/
theorem Run.letter_mem (wf : a.WellFormed) (run : a.Run s word t) :
    ∀ letter ∈ word, letter ∈ a.alphabet := by
  induction run with
  | nil s => intro letter h; cases h
  | cons first _ ih =>
    intro letter h
    rcases List.mem_cons.1 h with rfl | h
    · exact wf.letter_mem _ first
    · exact ih letter h

/-- A run leads from declared states to declared states. -/
theorem Run.mem_states (wf : a.WellFormed) (run : a.Run s word t) (declared : s ∈ a.states) :
    t ∈ a.states := by
  induction run with
  | nil s => exact declared
  | cons first _ ih => exact ih (wf.target_mem _ first)

/-- Reachable states are declared. -/
theorem Reachable.mem_states (wf : a.WellFormed) (reached : a.Reachable s) : s ∈ a.states := by
  obtain ⟨word, run⟩ := reached
  exact run.mem_states wf wf.start_mem

/-- All states of the deterministic automaton are reachable. -/
theorem reachable_determinize (wf : a.WellFormed) (mem : s ∈ a.determinize.states) :
    a.determinize.Reachable s := by
  obtain ⟨_, ⟨some_active, word, _, rfl⟩, rfl⟩ := mem_states_determinize.1 mem
  -- the word that activates the states leads to the state that stands for them
  refine ⟨word, mem_activeAfter_singleton.1 ?_⟩
  rw [(activeAfter_determinize wf word).1, mem_counterpart]
  exact ⟨some_active, rfl⟩

/-! ## One active state -/

section Deterministic

variable (deterministic : a.isDeterministic = true)

include deterministic

/-- A transition of a deterministic automaton leads from the set of its source to the set of its
target. -/
theorem step_singleton (first : ⟨s, c, t⟩ ∈ a.transitions) : a.step {s} c = {t} := by
  have only := isDeterministic_iff.1 deterministic _ first
  ext u
  rw [← only, mem_step_singleton, mem_targets]

/-- **At the end of a run only one state is active** if only one was active at its beginning. -/
theorem Run.activeAfter_eq (run : a.Run s word t) : a.activeAfter {s} word = {t} := by
  induction run with
  | nil s => rfl
  | cons first _ ih => rw [activeAfter_cons, step_singleton deterministic first, ih]

/-- The sets of states that are active together are the sets of **one reachable state**. -/
theorem activeTogether_iff (wf : a.WellFormed) :
    a.ActiveTogether active ↔ ∃ s, a.Reachable s ∧ active = {s} := by
  constructor
  · rintro ⟨⟨s, mem⟩, word, _, rfl⟩
    have run : a.Run a.start word s := mem_activeAfter_singleton.1 mem
    exact ⟨s, ⟨word, run⟩, run.activeAfter_eq deterministic⟩
  · rintro ⟨s, ⟨word, run⟩, rfl⟩
    exact ⟨⟨s, SortedSet.mem_singleton.2 rfl⟩, word, run.letter_mem wf,
      run.activeAfter_eq deterministic⟩

end Deterministic

/-! ## Renaming the reachable part -/

/-- `a.RenamedPart rename b` says that `b` is **the reachable part of `a` under other names**: `rename` gives
each reachable state a name of its own, and everything else corresponds. -/
structure RenamedPart (a : Automaton) (rename : State → State) (b : Automaton) : Prop where
  /-- Different states have different names. -/
  injective : ∀ s t, rename s = rename t → s = t
  /-- The starts correspond. -/
  start : b.start = rename a.start
  /-- The alphabets are the same. -/
  alphabet : b.alphabet = a.alphabet
  /-- The states are the reachable ones. -/
  mem_states : ∀ s, s ∈ b.states ↔ ∃ q, a.Reachable q ∧ s = rename q
  /-- The transitions are those of reachable states. -/
  mem_transitions : ∀ t, t ∈ b.transitions ↔ ∃ q letter target, a.Reachable q ∧
    ⟨q, letter, target⟩ ∈ a.transitions ∧ t = ⟨rename q, letter, rename target⟩
  /-- The accepting states are the reachable accepting ones. -/
  mem_accepting : ∀ s, s ∈ b.accepting ↔ ∃ q, a.Reachable q ∧ q ∈ a.accepting ∧ s = rename q

/-- **Determinizing a deterministic automaton renames its reachable part.** -/
theorem renamedPart_determinize (wf : a.WellFormed) (deterministic : a.isDeterministic = true) :
    a.RenamedPart State.wrapped a.determinize where
  injective _ _ := State.wrapped_injective
  start := rfl
  alphabet := rfl
  mem_states s := by
    rw [mem_states_determinize]
    constructor
    · rintro ⟨_, together, rfl⟩
      obtain ⟨q, reached, rfl⟩ := (activeTogether_iff deterministic wf).1 together
      exact ⟨q, reached, rfl⟩
    · rintro ⟨q, reached, rfl⟩
      exact ⟨{q}, (activeTogether_iff deterministic wf).2 ⟨q, reached, rfl⟩, rfl⟩
  mem_transitions t := by
    rw [mem_transitions_determinize]
    constructor
    · rintro ⟨_, letter, together, _, ⟨target, entered⟩, rfl⟩
      obtain ⟨q, reached, rfl⟩ := (activeTogether_iff deterministic wf).1 together
      have first : ⟨q, letter, target⟩ ∈ a.transitions := mem_step_singleton.1 entered
      refine ⟨q, letter, target, reached, first, ?_⟩
      rw [step_singleton deterministic first, State.ofSet_singleton, State.ofSet_singleton]
    · rintro ⟨q, letter, target, reached, first, rfl⟩
      refine ⟨{q}, letter, (activeTogether_iff deterministic wf).2 ⟨q, reached, rfl⟩,
        wf.letter_mem _ first, ⟨target, mem_step_singleton.2 first⟩, ?_⟩
      rw [step_singleton deterministic first, State.ofSet_singleton, State.ofSet_singleton]
  mem_accepting s := by
    rw [mem_accepting_determinize]
    constructor
    · rintro ⟨_, together, ⟨q', mem, accepting⟩, rfl⟩
      obtain ⟨q, reached, rfl⟩ := (activeTogether_iff deterministic wf).1 together
      rw [SortedSet.mem_singleton.1 mem] at accepting
      exact ⟨q, reached, accepting, rfl⟩
    · rintro ⟨q, reached, accepting, rfl⟩
      exact ⟨{q}, (activeTogether_iff deterministic wf).2 ⟨q, reached, rfl⟩,
        ⟨q, SortedSet.mem_singleton.2 rfl, accepting⟩, rfl⟩

/-- The automaton with **other names** for its states. -/
def renamed (a : Automaton) (rename : State → State) : Automaton where
  start := rename a.start
  states := a.states.image rename
  alphabet := a.alphabet
  transitions := a.transitions.image fun t => ⟨rename t.source, t.letter, rename t.target⟩
  accepting := a.accepting.image rename

attribute [ext] Automaton

/-- When all states are reachable, other names are all that is different. -/
theorem RenamedPart.eq_renamed {rename : State → State} (part : a.RenamedPart rename b)
    (wf : a.WellFormed) (reachable : ∀ s, s ∈ a.states → a.Reachable s) :
    b = a.renamed rename := by
  refine Automaton.ext part.start ?_ part.alphabet ?_ ?_
  · ext s
    rw [part.mem_states]
    simp only [renamed, SortedSet.mem_image]
    constructor
    · rintro ⟨q, reached, rfl⟩
      exact ⟨q, reached.mem_states wf, rfl⟩
    · rintro ⟨q, mem, rfl⟩
      exact ⟨q, reachable q mem, rfl⟩
  · ext t
    rw [part.mem_transitions]
    simp only [renamed, SortedSet.mem_image]
    constructor
    · rintro ⟨q, letter, target, _, first, rfl⟩
      exact ⟨_, first, rfl⟩
    · rintro ⟨first, mem, rfl⟩
      exact ⟨_, _, _, reachable _ (wf.source_mem first mem), mem, rfl⟩
  · ext s
    rw [part.mem_accepting]
    simp only [renamed, SortedSet.mem_image]
    constructor
    · rintro ⟨q, _, accepting, rfl⟩
      exact ⟨q, accepting, rfl⟩
    · rintro ⟨q, accepting, rfl⟩
      exact ⟨q, reachable q (wf.accepting_mem q accepting), accepting, rfl⟩

/-- **Determinizing a deterministic automaton** only renames the part of it that is reachable: each state
is wrapped into a state that stands for it alone. Hence determinizing any automaton twice is
determinizing it once and wrapping every state once more. -/
theorem determinize_wraps (wf : a.WellFormed) :
    (a.isDeterministic = true → a.RenamedPart State.wrapped a.determinize) ∧
      a.determinize.determinize = a.determinize.renamed State.wrapped := by
  refine ⟨renamedPart_determinize wf, ?_⟩
  have wf' := wellFormed_determinize a
  exact (renamedPart_determinize wf' (isDeterministic_determinize a)).eq_renamed wf'
    fun _ mem => reachable_determinize wf mem

/-- A deterministic automaton with a state that is wrapped already, and one that is not reachable. It
accepts the words over `a` of even length. -/
def alternating : Automaton where
  start := .atom "q"
  states := .ofList [.atom "q", .merge [.atom "q"], .atom "r"]
  alphabet := .ofList ['a', 'b']
  transitions := .ofList [
    ⟨.atom "q", 'a', .merge [.atom "q"]⟩, ⟨.merge [.atom "q"], 'a', .atom "q"⟩,
    ⟨.atom "r", 'b', .atom "q"⟩]
  accepting := .ofList [.atom "q", .atom "r"]

/-- In the alternating automaton both states that are reachable are wrapped, and wrapped again when it
is determinized twice. -/
theorem determinize_alternating :
    alternating.WellFormed ∧ alternating.isDeterministic = true ∧
      ¬ alternating.Reachable (.atom "r") ∧
      ⟨.merge [.merge [.atom "q"]], 'a', .merge [.atom "q"]⟩ ∈
        alternating.determinize.transitions ∧
      .merge [.atom "q"] ∈ alternating.determinize.accepting ∧
      alternating.determinize.determinize =
        alternating.determinize.renamed State.wrapped := by
  have wf : alternating.WellFormed := by decide +kernel
  have deterministic : alternating.isDeterministic = true := by decide +kernel
  obtain ⟨once, twice⟩ := determinize_wraps wf
  have part := once deterministic
  have start : alternating.Reachable (.atom "q") := ⟨[], .nil _⟩
  have next : alternating.Reachable (.merge [.atom "q"]) :=
    ⟨['a'], .cons (t := .merge [.atom "q"]) (by decide +kernel) (.nil _)⟩
  refine ⟨wf, deterministic, fun reached => ?_, ?_, ?_, twice⟩
  · have mem := (part.mem_states _).2 ⟨_, reached, rfl⟩
    exact absurd mem (by decide +kernel)
  · exact (part.mem_transitions _).2 ⟨_, 'a', .atom "q", next, by decide +kernel, rfl⟩
  · exact (part.mem_accepting _).2 ⟨.atom "q", start, by decide +kernel, rfl⟩

end Automaton

end FormalLanguages
