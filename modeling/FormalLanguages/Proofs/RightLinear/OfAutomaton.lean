import FormalLanguages.Proofs.Naming
import FormalLanguages.Proofs.RightLinear.ToAutomaton
import FormalLanguages.RightLinear.OfAutomaton

/-! # The grammar of an automaton generates what the automaton accepts

Every state has a nonterminal of its own, also when states have the same written form
(`stateName_injective`). A nonterminal yields the non-empty words that are recognized from its state
(`yields_cons_iff_recognizesFrom`). The empty word is different: only the start and the accepting
states that cannot be left have an empty right-hand side, since a word may stop with the transition
into an accepting state (`toGrammar_generates`). -/

namespace FormalLanguages.Automaton

variable {a : Automaton}

/-! ## The names of states -/

/-- All states are named, in their order. -/
theorem map_fst_nameStates (taken : SortedSet String) (states : List State) :
    (nameStates taken states).map (·.1) = states := by
  induction states generalizing taken with
  | nil => rfl
  | cons s rest ih => rw [nameStates, List.map_cons, ih]

/-- States are given new names. -/
theorem givenOut_nameStates (taken : SortedSet String) (states : List State) :
    GivenOut taken (nameStates taken states) := by
  induction states generalizing taken with
  | nil => exact .nil taken
  | cons s rest ih => exact .cons (freshPrimed_not_taken taken s.text) (ih _)

/-- The nonterminal of a state. -/
def stateName (a : Automaton) (s : State) : String := nameIn a.stateNames s

/-- The name of a declared state stands in the table of names. -/
theorem mem_stateNames {s : State} (declared : s ∈ a.states) :
    (s, a.stateName s) ∈ a.stateNames := by
  have listed : s ∈ a.stateNames.map (·.1) := by
    rw [stateNames, map_fst_nameStates]
    exact declared
  obtain ⟨n, found, mem⟩ := exists_lookup listed
  rw [stateName, nameIn, found]
  exact mem

/-- **Different states have different nonterminals**, whatever their written forms are. -/
theorem stateName_injective {s t : State} (hs : s ∈ a.states) (ht : t ∈ a.states)
    (same : a.stateName s = a.stateName t) : s = t := by
  have table : GivenOut ∅ a.stateNames := givenOut_nameStates ∅ a.states.toList
  have mem := mem_stateNames hs
  rw [same] at mem
  exact table.eq_of_mem mem (mem_stateNames ht)

/-! ## The parts of the grammar -/

@[simp] theorem start_toGrammar : a.toGrammar.start = a.stateName a.start := rfl

@[simp] theorem terminals_toGrammar : a.toGrammar.terminals = a.alphabet := rfl

/-- The nonterminals are the names of states. -/
theorem mem_nonterminals_toGrammar {n : String} :
    n ∈ a.toGrammar.nonterminals ↔ ∃ s, s ∈ a.states ∧ a.stateName s = n := by
  show n ∈ SortedSet.ofList (a.stateNames.map (·.2)) ↔ _
  rw [SortedSet.mem_ofList, List.mem_map]
  constructor
  · rintro ⟨⟨s, m⟩, mem, rfl⟩
    have listed : s ∈ a.stateNames.map (·.1) := List.mem_map.2 ⟨_, mem, rfl⟩
    have once : (a.stateNames.map (·.1)).Nodup := by
      rw [stateNames, map_fst_nameStates]
      exact a.states.nodup_toList
    rw [stateNames, map_fst_nameStates] at listed
    exact ⟨s, listed, name_eq_of_nodup once (mem_stateNames listed) mem⟩
  · rintro ⟨s, declared, rfl⟩
    exact ⟨_, mem_stateNames declared, rfl⟩

/-- The states that need an empty right-hand side are accepting. -/
theorem mem_stops {s : State} :
    s ∈ a.stops ↔ s ∈ a.accepting ∧ (s = a.start ∨ ∀ t, t ∈ a.transitions → t.source ≠ s) := by
  rw [stops, SortedSet.mem_filter, Bool.or_eq_true, decide_eq_true_iff, isDeadEnd_iff]

/-- **The productions** are the empty ones of the states that need them, and for each transition one
that goes on and, if it enters an accepting state, one that stops. -/
theorem mem_productions_toGrammar {p : Production} :
    p ∈ a.toGrammar.productions ↔
      (∃ s, s ∈ a.stops ∧ p = ⟨a.stateName s, []⟩) ∨
        ∃ t, t ∈ a.transitions ∧
          (p = ⟨a.stateName t.source, [.terminal t.letter, .nonterminal (a.stateName t.target)]⟩ ∨
            t.target ∈ a.accepting ∧ p = ⟨a.stateName t.source, [.terminal t.letter]⟩) := by
  show p ∈ a.stops.image (fun s => ⟨a.stateName s, []⟩) ∪
    a.transitions.bind (a.productionsOf a.stateName) ↔ _
  rw [SortedSet.mem_union, SortedSet.mem_image, SortedSet.mem_bind]
  refine or_congr ?_ ?_
  · simp only [eq_comm]
  · refine exists_congr fun t => and_congr_right fun _ => ?_
    by_cases accepting : t.target ∈ a.accepting
    · simp [productionsOf, accepting]
    · simp [productionsOf, accepting]

/-- The grammar is right-linear. -/
theorem rightLinear_toGrammar : a.toGrammar.RightLinear := by
  intro p mem
  rcases mem_productions_toGrammar.1 mem with ⟨s, _, rfl⟩ | ⟨t, _, rfl | ⟨_, rfl⟩⟩
  · exact .empty
  · exact .linked _ _
  · exact .letter _

/-- The grammar of a well-formed automaton is **well formed**. -/
theorem wellFormed_toGrammar (wf : a.WellFormed) : a.toGrammar.WellFormed := by
  have named : ∀ s, s ∈ a.states → a.stateName s ∈ a.toGrammar.nonterminals :=
    fun s declared => mem_nonterminals_toGrammar.2 ⟨s, declared, rfl⟩
  refine ⟨named a.start wf.start_mem, fun p mem => ?_, fun p mem s hs => ?_⟩
  · rcases mem_productions_toGrammar.1 mem with ⟨s, stops, rfl⟩ | ⟨t, ht, rfl | ⟨_, rfl⟩⟩
    · exact named s (wf.accepting_mem s (mem_stops.1 stops).1)
    · exact named t.source (wf.source_mem t ht)
    · exact named t.source (wf.source_mem t ht)
  · rcases mem_productions_toGrammar.1 mem with ⟨_, _, rfl⟩ | ⟨t, ht, rfl | ⟨_, rfl⟩⟩
    · cases hs
    · rw [List.mem_cons, List.mem_singleton] at hs
      rcases hs with rfl | rfl
      · exact wf.letter_mem t ht
      · exact named t.target (wf.target_mem t ht)
    · rw [List.mem_singleton.1 hs]
      exact wf.letter_mem t ht

/-! ## Yielding from the nonterminal of a state -/

section Yielding

variable (wf : a.WellFormed) {s : State} (declared : s ∈ a.states)

include wf declared

/-- **The alternatives of the nonterminal of a state** come from this state alone, since no other
state has its name. -/
theorem mem_productions_of_state {rhs : Form} :
    ⟨a.stateName s, rhs⟩ ∈ a.toGrammar.productions ↔
      (s ∈ a.stops ∧ rhs = []) ∨
        ∃ c t, ⟨s, c, t⟩ ∈ a.transitions ∧
          (rhs = [.terminal c, .nonterminal (a.stateName t)] ∨
            t ∈ a.accepting ∧ rhs = [.terminal c]) := by
  rw [mem_productions_toGrammar]
  constructor
  · rintro (⟨t, stops, same⟩ | ⟨t, ht, same⟩)
    · obtain ⟨left, right⟩ := Production.mk.inj same
      have inside := wf.accepting_mem t (mem_stops.1 stops).1
      rw [stateName_injective declared inside left]
      exact .inl ⟨stops, right⟩
    · have left : a.stateName s = a.stateName t.source := by
        rcases same with same | ⟨_, same⟩
        · exact congrArg Production.lhs same
        · exact congrArg Production.lhs same
      rw [stateName_injective declared (wf.source_mem t ht) left]
      refine .inr ⟨t.letter, t.target, ht, ?_⟩
      rcases same with same | ⟨accepting, same⟩
      · exact .inl (congrArg Production.rhs same)
      · exact .inr ⟨accepting, congrArg Production.rhs same⟩
  · rintro (⟨stops, rfl⟩ | ⟨c, t, ht, rfl | ⟨accepting, rfl⟩⟩)
    · exact .inl ⟨s, stops, rfl⟩
    · exact .inr ⟨⟨s, c, t⟩, ht, .inl rfl⟩
    · exact .inr ⟨⟨s, c, t⟩, ht, .inr ⟨accepting, rfl⟩⟩

/-- The nonterminal of a state yields the empty word when the state needs an empty right-hand
side. -/
theorem yields_nil_iff_mem_stops : a.toGrammar.Yields [.nonterminal (a.stateName s)] [] ↔
    s ∈ a.stops := by
  rw [rightLinear_toGrammar.yields_nil_iff, mem_productions_of_state wf declared]
  simp

/-- **One letter**: the nonterminal of a state yields a longer word along a transition into a state
that is accepting, if the word ends there, or whose nonterminal yields the rest. -/
theorem yields_cons_iff_exists_transition {c : Char} {rest : List Char} :
    a.toGrammar.Yields [.nonterminal (a.stateName s)] (c :: rest) ↔
      ∃ t, ⟨s, c, t⟩ ∈ a.transitions ∧
        (t ∈ a.accepting ∧ rest = [] ∨
          a.toGrammar.Yields [.nonterminal (a.stateName t)] rest) := by
  rw [rightLinear_toGrammar.yields_cons_iff]
  constructor
  · rintro (⟨mem, empty⟩ | ⟨n, mem, d⟩)
    · rcases (mem_productions_of_state wf declared).1 mem with
        ⟨_, same⟩ | ⟨_, t, ht, same | ⟨accepting, same⟩⟩
      · cases same
      · cases same
      · cases same
        exact ⟨t, ht, .inl ⟨accepting, empty⟩⟩
    · rcases (mem_productions_of_state wf declared).1 mem with
        ⟨_, same⟩ | ⟨_, t, ht, same | ⟨_, same⟩⟩
      · cases same
      · obtain ⟨rfl, rfl⟩ : c = _ ∧ n = _ := by simpa using same
        exact ⟨t, ht, .inr d⟩
      · cases same
  · rintro ⟨t, ht, ⟨accepting, empty⟩ | d⟩
    · refine .inl ⟨(mem_productions_of_state wf declared).2 ?_, empty⟩
      exact .inr ⟨c, t, ht, .inr ⟨accepting, rfl⟩⟩
    · refine .inr ⟨a.stateName t, (mem_productions_of_state wf declared).2 ?_, d⟩
      exact .inr ⟨c, t, ht, .inl rfl⟩

/-- **Longer words**: the nonterminal of a state yields a word with letters when the word is
recognized from the state. -/
theorem yields_cons_iff_recognizesFrom {c : Char} {rest : List Char} :
    a.toGrammar.Yields [.nonterminal (a.stateName s)] (c :: rest) ↔
      a.RecognizesFrom s (c :: rest) := by
  induction rest generalizing s c with
  | nil =>
    rw [yields_cons_iff_exists_transition wf declared, recognizesFrom_cons_iff]
    refine exists_congr fun t => and_congr_right fun ht => ?_
    rw [yields_nil_iff_mem_stops wf (wf.target_mem _ ht), recognizesFrom_nil_iff]
    -- states with an empty right-hand side are accepting, so they add nothing
    constructor
    · rintro (⟨accepting, _⟩ | stops)
      · exact accepting
      · exact (mem_stops.1 stops).1
    · intro accepting
      exact .inl ⟨accepting, rfl⟩
  | cons d rest ih =>
    rw [yields_cons_iff_exists_transition wf declared, recognizesFrom_cons_iff]
    refine exists_congr fun t => and_congr_right fun ht => ?_
    rw [ih (wf.target_mem _ ht), or_iff_right]
    rintro ⟨_, empty⟩
    cases empty

end Yielding

/-- The grammar of an automaton generates the words that the automaton accepts. -/
theorem language_toGrammar_iff (wf : a.WellFormed) {word : List Char} :
    a.toGrammar.Language word ↔ a.accepts word = true := by
  rw [Grammar.language_iff, accepts_iff_recognizes, recognizes_iff, start_toGrammar]
  cases word with
  | nil =>
    -- the start needs an empty right-hand side whenever it is accepting
    rw [yields_nil_iff_mem_stops wf wf.start_mem, recognizesFrom_nil_iff, mem_stops]
    exact and_iff_left (.inl rfl)
  | cons c rest => exact yields_cons_iff_recognizesFrom wf wf.start_mem

/-- **The grammar of an automaton is well formed, right-linear and generates what the automaton
accepts**: its nonterminals are the names of the states, different for different states, it has an
automaton itself, and its start derives exactly the accepted words. -/
theorem toGrammar_generates (wf : a.WellFormed) :
    a.toGrammar.WellFormed ∧
      (∀ n, n ∈ a.toGrammar.nonterminals ↔ ∃ s, s ∈ a.states ∧ a.stateName s = n) ∧
      (∀ s t, s ∈ a.states → t ∈ a.states → a.stateName s = a.stateName t → s = t) ∧
      (∃ b, a.toGrammar.toAutomaton = .ok b) ∧
      ∀ word, a.toGrammar.Language word ↔ a.accepts word = true :=
  ⟨wellFormed_toGrammar wf, fun _ => mem_nonterminals_toGrammar,
    fun _ _ hs ht => stateName_injective hs ht,
    ⟨_, Grammar.toAutomaton_of_rightLinear rightLinear_toGrammar⟩,
    fun _ => language_toGrammar_iff wf⟩

/-- An automaton with a state that is named like the written form of a merged state, and one that is
named like the name with a quote mark that would be next for it. -/
def lookalikes : Automaton where
  start := .atom "\x7bq\x7d"
  states := .ofList [.atom "\x7bq\x7d", .atom "\x7bq\x7d'", .merge [.atom "q"]]
  alphabet := .ofList ['a', 'b']
  transitions := .ofList [
    ⟨.atom "\x7bq\x7d", 'a', .merge [.atom "q"]⟩, ⟨.merge [.atom "q"], 'b', .atom "\x7bq\x7d"⟩,
    ⟨.merge [.atom "q"], 'a', .atom "\x7bq\x7d'"⟩]
  accepting := .ofList [.atom "\x7bq\x7d", .atom "\x7bq\x7d'"]

/-- The merged state of the lookalikes is written like another state but has a nonterminal of its own,
and the words of the grammar are told apart like those of the automaton. -/
theorem toGrammar_generates_lookalikes :
    lookalikes.WellFormed ∧
      (State.merge [.atom "q"]).text = (State.atom "\x7bq\x7d").text ∧
      lookalikes.stateName (.merge [.atom "q"]) ≠ lookalikes.stateName (.atom "\x7bq\x7d") ∧
      (∃ b, lookalikes.toGrammar.toAutomaton = .ok b) ∧
      lookalikes.toGrammar.Language [] ∧ lookalikes.toGrammar.Language ['a', 'b', 'a', 'a'] ∧
      ¬ lookalikes.toGrammar.Language ['a'] := by
  have wf : lookalikes.WellFormed := by decide +kernel
  obtain ⟨_, _, apart, built, generates⟩ := toGrammar_generates wf
  refine ⟨wf, by decide +kernel, fun same => ?_, built, ?_, ?_, ?_⟩
  · have equal := apart _ _ (by decide +kernel) (by decide +kernel) same
    exact absurd equal (by decide +kernel)
  · rw [generates]
    decide +kernel
  · rw [generates]
    decide +kernel
  · rw [generates]
    decide +kernel

end FormalLanguages.Automaton
