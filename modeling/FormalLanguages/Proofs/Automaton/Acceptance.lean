import FormalLanguages.Automaton.Run

/-! # Acceptance as one set of active states

Reading a word letter by letter stops early when no state is active, but the answer is the one of
the states that are active after the whole word (`Automaton.accepts_eq`), so it tells whether some
run from the start ends in an accepting state (`Automaton.accepts_iff_recognizes`). A run is a path
of states along the word, so an accepted word is one with a path from the start to an accepting
state (`Automaton.accepts_iff_exists_path`). Being deterministic is read as a property of the
transitions in the same way (`Automaton.isDeterministic_iff`). -/

namespace FormalLanguages

namespace SortedSet

variable {α : Type} [Ord α] [Std.LawfulEqOrd α] [Std.TransOrd α]

/-- The sets of one element are the singletons. -/
theorem size_eq_one_iff {s : SortedSet α} : s.size = 1 ↔ ∃ a, s = {a} := by
  constructor
  · intro h
    obtain ⟨a, ha⟩ := List.length_eq_one_iff.1 h
    refine ⟨a, ?_⟩
    ext b
    rw [← mem_toList, ha, List.mem_singleton, mem_singleton]
  · rintro ⟨a, rfl⟩
    rfl

end SortedSet

namespace Automaton

variable {a : Automaton} {active : SortedSet State}

/-- Reading two words one after the other. -/
theorem activeAfter_append (word more : List Char) :
    a.activeAfter active (word ++ more) = a.activeAfter (a.activeAfter active word) more := by
  unfold activeAfter
  rw [List.foldl_append]

/-- Without active states no letter activates any. -/
theorem step_of_isEmpty (h : active.isEmpty = true) (letter : Char) :
    (a.step active letter).isEmpty = true := by
  rw [SortedSet.isEmpty_iff] at h ⊢
  intro target ht
  obtain ⟨source, hs, _⟩ := mem_step.1 ht
  exact h source hs

/-- Without active states no word activates any. -/
theorem activeAfter_of_isEmpty (h : active.isEmpty = true) (word : List Char) :
    (a.activeAfter active word).isEmpty = true := by
  induction word generalizing active with
  | nil => exact h
  | cons letter rest ih =>
    rw [activeAfter_cons]
    exact ih (step_of_isEmpty h letter)

/-- No accepting state is among no states. -/
theorem meetsAccepting_of_isEmpty (h : active.isEmpty = true) : a.meetsAccepting active = false := by
  rw [← Bool.not_eq_true, meetsAccepting_iff]
  rintro ⟨s, hs, _⟩
  exact SortedSet.isEmpty_iff.1 h s hs

/-- **Stopping early changes nothing**: a word is accepted from the active states when an accepting
state is active after all of it. -/
theorem acceptsFrom_eq (word : List Char) :
    a.acceptsFrom active word = a.meetsAccepting (a.activeAfter active word) := by
  induction word generalizing active with
  | nil => rfl
  | cons letter rest ih =>
    rw [acceptsFrom, activeAfter_cons]
    by_cases h : (a.step active letter).isEmpty = true
    · rw [if_pos h, meetsAccepting_of_isEmpty (activeAfter_of_isEmpty h rest)]
    · rw [if_neg h, ih]

/-- A word is accepted when an accepting state is active after it. -/
theorem accepts_eq (word : List Char) :
    a.accepts word = a.meetsAccepting (a.activeAfter {a.start} word) :=
  acceptsFrom_eq word

/-- A word is **recognized from a state** when some run on it leads from there to an accepting
state. -/
def RecognizesFrom (a : Automaton) (s : State) (word : List Char) : Prop :=
  ∃ t, t ∈ a.accepting ∧ a.Run s word t

/-- The empty word is recognized from the accepting states. -/
@[simp] theorem recognizesFrom_nil_iff {s : State} : a.RecognizesFrom s [] ↔ s ∈ a.accepting := by
  constructor
  · rintro ⟨t, accepting, run⟩
    cases run
    exact accepting
  · intro accepting
    exact ⟨s, accepting, .nil s⟩

/-- A longer word is recognized when the rest is recognized after a transition on its first
letter. -/
theorem recognizesFrom_cons_iff {s : State} {letter : Char} {rest : List Char} :
    a.RecognizesFrom s (letter :: rest) ↔
      ∃ t, ⟨s, letter, t⟩ ∈ a.transitions ∧ a.RecognizesFrom t rest := by
  constructor
  · rintro ⟨u, accepting, run⟩
    cases run with
    | cons first others => exact ⟨_, first, u, accepting, others⟩
  · rintro ⟨t, first, u, accepting, others⟩
    exact ⟨u, accepting, .cons first others⟩

/-- A word is recognized when it is recognized from the start. -/
theorem recognizes_iff {word : List Char} : a.Recognizes word ↔ a.RecognizesFrom a.start word :=
  Iff.rfl

/-- **Acceptance is recognition**: a word is accepted when some run on it leads from the start to an
accepting state. -/
theorem accepts_iff_recognizes {word : List Char} : a.accepts word = true ↔ a.Recognizes word := by
  rw [accepts_eq, meetsAccepting_iff]
  refine exists_congr fun t => ?_
  rw [mem_activeAfter_singleton, and_comm]

/-- The sources of moves are the sources and letters of transitions. -/
theorem mem_sources {source : State × Char} :
    source ∈ a.sources ↔ ∃ t, t ∈ a.transitions ∧ (t.source, t.letter) = source := by
  simp only [sources, List.mem_eraseDups, List.mem_map, SortedSet.mem_toList]

/-- **Being deterministic**: the target of every transition is the only one for its source and
letter. -/
theorem isDeterministic_iff :
    a.isDeterministic = true ↔
      ∀ t, t ∈ a.transitions → a.targets t.source t.letter = {t.target} := by
  rw [isDeterministic, List.all_eq_true]
  constructor
  · intro h t ht
    have move := h _ (List.mem_map.2 ⟨(t.source, t.letter), mem_sources.2 ⟨t, ht, rfl⟩, rfl⟩)
    obtain ⟨target, single⟩ := SortedSet.size_eq_one_iff.1 (beq_iff_eq.1 move)
    have mem : t.target ∈ a.targets t.source t.letter := mem_targets.2 ht
    have same : t.target = target := by
      rw [show a.targets t.source t.letter = {target} from single] at mem
      exact SortedSet.mem_singleton.1 mem
    rw [same]
    exact single
  · intro h move hm
    obtain ⟨source, hs, rfl⟩ := List.mem_map.1 hm
    obtain ⟨t, ht, rfl⟩ := mem_sources.1 hs
    show ((a.targets t.source t.letter).size == 1) = true
    rw [beq_iff_eq, SortedSet.size_eq_one_iff]
    exact ⟨t.target, h t ht⟩

/-! ## Paths -/

/-- A **path** on a word visits a state before each letter and one after the last, and every letter
leads from the state before it to one of its targets. -/
def Path (a : Automaton) (word : List Char) (visited : Fin (word.length + 1) → State) : Prop :=
  ∀ i : Fin word.length, visited i.succ ∈ a.targets (visited i.castSucc) (word.get i)

/-- On a longer word a path begins with a transition on the first letter. -/
theorem path_cons_iff {letter : Char} {rest : List Char}
    {visited : Fin ((letter :: rest).length + 1) → State} :
    a.Path (letter :: rest) visited ↔
      ⟨visited 0, letter, visited 1⟩ ∈ a.transitions ∧
        a.Path rest fun i : Fin (rest.length + 1) => visited i.succ := by
  constructor
  · intro path
    exact ⟨mem_targets.1 (path 0), fun i => path i.succ⟩
  · rintro ⟨first, others⟩ i
    cases i using Fin.cases with
    | zero => exact mem_targets.2 first
    | succ i => exact others i

/-- **Runs are paths**, from the state that is visited first to the one that is visited last. -/
theorem run_iff_exists_path {word : List Char} {s t : State} :
    a.Run s word t ↔
      ∃ visited, a.Path word visited ∧ visited 0 = s ∧ visited (Fin.last word.length) = t := by
  constructor
  · intro run
    induction run with
    | nil s => exact ⟨fun _ => s, fun i => i.elim0, rfl, rfl⟩
    | @cons s t u letter rest first others ih =>
      obtain ⟨visited, path, rfl, rfl⟩ := ih
      -- the new state is visited before all others
      exact ⟨Fin.cases (motive := fun _ => State) s visited, path_cons_iff.2 ⟨first, path⟩, rfl,
        rfl⟩
  · rintro ⟨visited, path, rfl, rfl⟩
    induction word with
    | nil => exact .nil _
    | cons letter rest ih =>
      obtain ⟨first, others⟩ := path_cons_iff.1 path
      exact .cons first (ih _ others)

/-- A path that begins in a declared state visits declared states only. -/
theorem Path.mem_states (wf : a.WellFormed) {word : List Char}
    {visited : Fin (word.length + 1) → State} (path : a.Path word visited)
    (declared : visited 0 ∈ a.states) (i : Fin (word.length + 1)) : visited i ∈ a.states := by
  cases i using Fin.cases with
  | zero => exact declared
  | succ i => exact wf.target_mem _ (mem_targets.1 (path i))

/-- A word is recognized when some path on it leads from the start to an accepting state. -/
theorem recognizes_iff_exists_path {word : List Char} :
    a.Recognizes word ↔ ∃ visited, a.Path word visited ∧ visited 0 = a.start ∧
      visited (Fin.last word.length) ∈ a.accepting := by
  simp only [Recognizes, run_iff_exists_path]
  constructor
  · rintro ⟨t, accepting, visited, path, start, rfl⟩
    exact ⟨visited, path, start, accepting⟩
  · rintro ⟨visited, path, start, accepting⟩
    exact ⟨_, accepting, visited, path, start, rfl⟩

/-- Once no state is active, the word is rejected whatever follows. -/
theorem accepts_append_of_isEmpty {word : List Char}
    (none : (a.activeAfter {a.start} word).isEmpty = true) (rest : List Char) :
    a.accepts (word ++ rest) = false := by
  rw [accepts_eq, activeAfter_append]
  exact meetsAccepting_of_isEmpty (activeAfter_of_isEmpty none rest)

/-- **Acceptance is the existence of a path**: a word is accepted just when some path on it leads
from the start to an accepting state, and such a path stays among the declared states. Stopping
early does not show: the answer is the one of the states that are active after the whole word, and
when none are active after some letters, no continuation is accepted. -/
theorem accepts_iff_exists_path (wf : a.WellFormed) (word : List Char) :
    (a.accepts word = true ↔ ∃ visited, a.Path word visited ∧ visited 0 = a.start ∧
        visited (Fin.last word.length) ∈ a.accepting) ∧
      (∀ visited, a.Path word visited → visited 0 = a.start → ∀ i, visited i ∈ a.states) ∧
      a.accepts word = a.meetsAccepting (a.activeAfter {a.start} word) ∧
      ((a.activeAfter {a.start} word).isEmpty = true → ∀ rest, a.accepts (word ++ rest) = false) :=
  ⟨accepts_iff_recognizes.trans recognizes_iff_exists_path,
    fun _ path start => path.mem_states wf (start ▸ wf.start_mem), accepts_eq word,
    accepts_append_of_isEmpty⟩

/-- An automaton that branches on `a`: one branch can only read a `b`, the other one only an `a`. -/
def branching : Automaton where
  start := .atom "s"
  states := .ofList [.atom "s", .atom "l", .atom "r", .atom "t"]
  alphabet := .ofList ['a', 'b']
  transitions := .ofList [
    ⟨.atom "s", 'a', .atom "l"⟩, ⟨.atom "s", 'a', .atom "r"⟩, ⟨.atom "l", 'b', .atom "t"⟩,
    ⟨.atom "r", 'a', .atom "s"⟩]
  accepting := .ofList [.atom "t"]

/-- The branching automaton has an accepting path on `aaab`, though one branch ends early each time.
No state is active after `abb`, so there is no accepting path on `abbab`. -/
theorem accepts_iff_exists_path_branching :
    branching.WellFormed ∧
      (∃ visited, branching.Path ['a', 'a', 'a', 'b'] visited ∧ visited 0 = branching.start ∧
        visited 4 ∈ branching.accepting ∧ ∀ i, visited i ∈ branching.states) ∧
      (branching.activeAfter {branching.start} ['a', 'b', 'b']).isEmpty = true ∧
      ¬ ∃ visited, branching.Path ['a', 'b', 'b', 'a', 'b'] visited ∧
        visited 0 = branching.start ∧ visited 5 ∈ branching.accepting := by
  have wf : branching.WellFormed := by decide +kernel
  obtain ⟨path, declared, _⟩ := accepts_iff_exists_path wf ['a', 'a', 'a', 'b']
  obtain ⟨visited, along, start, accepting⟩ := path.1 (by decide +kernel)
  have none : (branching.activeAfter {branching.start} ['a', 'b', 'b']).isEmpty = true := by
    decide +kernel
  have rejected : branching.accepts ['a', 'b', 'b', 'a', 'b'] = false :=
    (accepts_iff_exists_path wf ['a', 'b', 'b']).2.2.2 none ['a', 'b']
  refine ⟨wf, ⟨visited, along, start, accepting, declared visited along start⟩, none,
    fun found => ?_⟩
  have accepted := (accepts_iff_exists_path wf ['a', 'b', 'b', 'a', 'b']).1.2 found
  exact Bool.false_ne_true (rejected.symm.trans accepted)

end Automaton

end FormalLanguages
