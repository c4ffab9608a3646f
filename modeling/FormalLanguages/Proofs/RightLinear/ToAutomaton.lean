import FormalLanguages.Proofs.Automaton.Acceptance
import FormalLanguages.Proofs.RightLinear.Yield

/-! # The automaton of a right-linear grammar recognizes its language

Reading a word from the state of a nonterminal follows what the nonterminal yields, letter by letter
(`yields_iff_recognizesFrom`). The additional state is entered by the last letter of a word only: it
is named like no nonterminal, so no transition leaves it. A grammar that is not right-linear has no
automaton; what is reported are its offending productions (`toAutomaton_recognizes`). -/

namespace FormalLanguages.Grammar

variable {g : Grammar}

/-! ## The parts of the automaton -/

/-- Productions with a letter stand for transitions, to the additional state if nothing follows the
letter. -/
theorem transition?_eq_some_iff {p : Production} {t : Transition} :
    g.transition? p = some t ↔
      (∃ c, p.rhs = [.terminal c] ∧ t = ⟨.atom p.lhs, c, g.finalState⟩) ∨
        ∃ c n, p.rhs = [.terminal c, .nonterminal n] ∧ t = ⟨.atom p.lhs, c, .atom n⟩ := by
  constructor
  · intro stands
    unfold transition? at stands
    split at stands
    · rename_i c shape
      exact .inl ⟨c, shape, (Option.some.inj stands).symm⟩
    · rename_i c n shape
      exact .inr ⟨c, n, shape, (Option.some.inj stands).symm⟩
    · cases stands
  · rintro (⟨c, shape, rfl⟩ | ⟨c, n, shape, rfl⟩)
    · rw [transition?, shape]
    · rw [transition?, shape]

/-- The transitions from the state of a nonterminal. -/
theorem mem_transitions_linearAutomaton {name : String} {c : Char} {target : State} :
    ⟨.atom name, c, target⟩ ∈ g.linearAutomaton.transitions ↔
      (⟨name, [.terminal c]⟩ ∈ g.productions ∧ target = g.finalState) ∨
        ∃ n, ⟨name, [.terminal c, .nonterminal n]⟩ ∈ g.productions ∧ target = .atom n := by
  show _ ∈ g.productions.filterMap g.transition? ↔ _
  rw [SortedSet.mem_filterMap]
  constructor
  · rintro ⟨⟨lhs, rhs⟩, mem, stands⟩
    rcases transition?_eq_some_iff.1 stands with ⟨d, shape, same⟩ | ⟨d, n, shape, same⟩
    · cases shape
      cases same
      exact .inl ⟨mem, rfl⟩
    · cases shape
      cases same
      exact .inr ⟨n, mem, rfl⟩
  · rintro (⟨mem, rfl⟩ | ⟨n, mem, rfl⟩)
    · exact ⟨_, mem, transition?_eq_some_iff.2 (.inl ⟨c, rfl, rfl⟩)⟩
    · exact ⟨_, mem, transition?_eq_some_iff.2 (.inr ⟨c, n, rfl, rfl⟩)⟩

/-- Transitions leave the states of left-hand sides. -/
theorem exists_mem_of_mem_transitions {t : Transition}
    (h : t ∈ g.linearAutomaton.transitions) :
    ∃ p, p ∈ g.productions ∧ t.source = .atom p.lhs := by
  obtain ⟨p, mem, stands⟩ := SortedSet.mem_filterMap.1 h
  rcases transition?_eq_some_iff.1 stands with ⟨c, _, rfl⟩ | ⟨c, n, _, rfl⟩
  · exact ⟨p, mem, rfl⟩
  · exact ⟨p, mem, rfl⟩

/-- The accepting states are the additional one and those of nonterminals with an empty right-hand
side. -/
theorem mem_accepting_linearAutomaton {s : State} :
    s ∈ g.linearAutomaton.accepting ↔
      s = g.finalState ∨ ∃ n, ⟨n, []⟩ ∈ g.productions ∧ s = .atom n := by
  show s ∈ SortedSet.insert _ g.finalState ↔ _
  rw [SortedSet.mem_insert, SortedSet.mem_filterMap]
  refine or_congr_right ⟨?_, ?_⟩
  · rintro ⟨⟨lhs, rhs⟩, mem, found⟩
    obtain ⟨empty, same⟩ := Option.ite_none_right_eq_some.1 found
    cases empty
    cases same
    exact ⟨lhs, mem, rfl⟩
  · rintro ⟨n, mem, rfl⟩
    exact ⟨_, mem, if_pos rfl⟩

/-- The additional state is named like no nonterminal. -/
theorem atom_ne_finalState {name : String} (declared : name ∈ g.nonterminals) :
    State.atom name ≠ g.finalState := by
  intro same
  rw [State.atom.inj same] at declared
  exact freshPrimed_not_taken _ _ declared

/-- The automaton of a well-formed grammar is well formed. -/
theorem wellFormed_linearAutomaton (wf : g.WellFormed) : g.linearAutomaton.WellFormed := by
  have named : ∀ n, n ∈ g.nonterminals → .atom n ∈ g.linearAutomaton.states :=
    fun n declared => SortedSet.mem_insert.2 (.inr (SortedSet.mem_image.2 ⟨n, declared, rfl⟩))
  have last : g.finalState ∈ g.linearAutomaton.states := SortedSet.mem_insert.2 (.inl rfl)
  have parts : ∀ t, t ∈ g.linearAutomaton.transitions → t.source ∈ g.linearAutomaton.states ∧
      t.letter ∈ g.terminals ∧ t.target ∈ g.linearAutomaton.states := by
    intro t moves
    obtain ⟨p, mem, stands⟩ := SortedSet.mem_filterMap.1 moves
    have left := named p.lhs (wf.lhs_mem p mem)
    rcases transition?_eq_some_iff.1 stands with ⟨c, shape, rfl⟩ | ⟨c, n, shape, rfl⟩
    · exact ⟨left, wf.declares p mem (.terminal c) (by simp [shape]), last⟩
    · exact ⟨left, wf.declares p mem (.terminal c) (by simp [shape]),
        named n (wf.declares p mem (.nonterminal n) (by simp [shape]))⟩
  refine ⟨named g.start wf.start_mem, fun s accepting => ?_, fun t mem => (parts t mem).1,
    fun t mem => (parts t mem).2.1, fun t mem => (parts t mem).2.2⟩
  rcases mem_accepting_linearAutomaton.1 accepting with rfl | ⟨n, mem, rfl⟩
  · exact last
  · exact named n (wf.lhs_mem _ mem)

/-! ## Reading from the state of a nonterminal -/

/-- No transition leaves the additional state, so only the empty word is recognized from it. -/
theorem recognizesFrom_finalState_iff (wf : g.WellFormed) {word : List Char} :
    g.linearAutomaton.RecognizesFrom g.finalState word ↔ word = [] := by
  cases word with
  | nil =>
    rw [Automaton.recognizesFrom_nil_iff, mem_accepting_linearAutomaton]
    exact iff_of_true (.inl rfl) rfl
  | cons c rest =>
    refine iff_of_false (fun h => ?_) (List.cons_ne_nil c rest)
    obtain ⟨t, first, _⟩ := Automaton.recognizesFrom_cons_iff.1 h
    obtain ⟨p, mem, same⟩ := exists_mem_of_mem_transitions first
    exact atom_ne_finalState (wf.lhs_mem p mem) same.symm

/-- **Reading follows yielding**: a declared nonterminal yields what is recognized from its
state. -/
theorem yields_iff_recognizesFrom (wf : g.WellFormed) (linear : g.RightLinear) {name : String}
    (declared : name ∈ g.nonterminals) {word : List Char} :
    g.Yields [.nonterminal name] word ↔ g.linearAutomaton.RecognizesFrom (.atom name) word := by
  induction word generalizing name with
  | nil =>
    rw [linear.yields_nil_iff, Automaton.recognizesFrom_nil_iff, mem_accepting_linearAutomaton,
      or_iff_right (atom_ne_finalState declared)]
    constructor
    · intro mem
      exact ⟨name, mem, rfl⟩
    · rintro ⟨n, mem, same⟩
      rw [State.atom.inj same]
      exact mem
  | cons c rest ih =>
    have next : ∀ n, ⟨name, [.terminal c, .nonterminal n]⟩ ∈ g.productions → n ∈ g.nonterminals :=
      fun n mem => wf.declares _ mem (.nonterminal n) (by simp)
    rw [linear.yields_cons_iff, Automaton.recognizesFrom_cons_iff]
    constructor
    · rintro (⟨mem, empty⟩ | ⟨n, mem, d⟩)
      · exact ⟨g.finalState, mem_transitions_linearAutomaton.2 (.inl ⟨mem, rfl⟩),
          (recognizesFrom_finalState_iff wf).2 empty⟩
      · exact ⟨.atom n, mem_transitions_linearAutomaton.2 (.inr ⟨n, mem, rfl⟩),
          (ih (next n mem)).1 d⟩
    · rintro ⟨t, first, others⟩
      rcases mem_transitions_linearAutomaton.1 first with ⟨mem, rfl⟩ | ⟨n, mem, rfl⟩
      · exact .inl ⟨mem, (recognizesFrom_finalState_iff wf).1 others⟩
      · exact .inr ⟨n, mem, (ih (next n mem)).2 others⟩

/-- The automaton of a right-linear grammar accepts its language. -/
theorem accepts_linearAutomaton_iff (wf : g.WellFormed) (linear : g.RightLinear)
    {word : List Char} : g.linearAutomaton.accepts word = true ↔ g.Language word := by
  rw [Automaton.accepts_iff_recognizes, Automaton.recognizes_iff, language_iff]
  exact (yields_iff_recognizesFrom wf linear wf.start_mem).symm

/-! ## Which grammars have an automaton -/

/-- The productions that are not right-linear, in the order of rules. -/
def offending (g : Grammar) : List Production :=
  (g.rules.flatMap fun rule => rule.2.toList.map (Production.mk rule.1)).filter
    fun p => ¬ Form.RightLinear p.rhs

/-- Every offending production is a fault. -/
theorem linearityFaults_eq (g : Grammar) :
    g.linearityFaults = g.offending.map (⟨.production ·, .notRightLinear⟩) := by
  rw [linearityFaults, offending, flatMap_rules]
  congr 2
  funext p
  rw [Bool.eq_iff_iff, Bool.not_eq_true', decide_eq_true_iff, ← Form.isRightLinear_iff,
    Bool.not_eq_true]

/-- Right-linear grammars have no faults. -/
theorem linearityFaults_eq_nil_iff : g.linearityFaults = [] ↔ g.RightLinear := by
  simp only [linearityFaults, List.map_eq_nil_iff, List.filter_eq_nil_iff, Bool.not_eq_true',
    Bool.not_eq_false, SortedSet.mem_toList, Form.isRightLinear_iff, RightLinear]

/-- A right-linear grammar has an automaton. -/
theorem toAutomaton_of_rightLinear (linear : g.RightLinear) :
    g.toAutomaton = .ok g.linearAutomaton := by
  rw [toAutomaton, linearityFaults_eq_nil_iff.2 linear]

/-- Any other grammar is refused with its faults. -/
theorem toAutomaton_of_not_rightLinear (other : ¬ g.RightLinear) :
    g.toAutomaton = .error g.linearityFaults := by
  rw [← linearityFaults_eq_nil_iff] at other
  unfold toAutomaton
  split
  · rename_i none
    exact absurd none other
  · rfl

/-- A grammar has an automaton when it is right-linear: the one of its productions. -/
theorem toAutomaton_eq_ok_iff {a : Automaton} :
    g.toAutomaton = .ok a ↔ g.RightLinear ∧ g.linearAutomaton = a := by
  by_cases linear : g.RightLinear
  · rw [toAutomaton_of_rightLinear linear, Except.ok.injEq, and_iff_right linear]
  · rw [toAutomaton_of_not_rightLinear linear]
    exact iff_of_false nofun fun h => linear h.1

/-- **The right-linear grammars are those that have an automaton, and it accepts their language.**
Any other grammar is refused with one fault for each offending production, in the order of rules and
placed at the production, which is how the fault is written. -/
theorem toAutomaton_recognizes (wf : g.WellFormed) :
    ((∃ a, g.toAutomaton = .ok a) ↔ g.RightLinear) ∧
      (∀ a, g.toAutomaton = .ok a → ∀ word, a.accepts word = true ↔ g.Language word) ∧
      ∀ faults, g.toAutomaton = .error faults →
        faults = g.offending.map (⟨.production ·, .notRightLinear⟩) ∧
          faults.map (·.place.text) = g.offending.map Production.text := by
  by_cases linear : g.RightLinear
  · have built := toAutomaton_of_rightLinear linear
    refine ⟨iff_of_true ⟨_, built⟩ linear, fun a same word => ?_, fun faults same => ?_⟩
    · rw [built] at same
      cases same
      exact accepts_linearAutomaton_iff wf linear
    · rw [built] at same
      cases same
  · have refused := toAutomaton_of_not_rightLinear linear
    refine ⟨iff_of_false ?_ linear, fun a same => ?_, fun faults same => ?_⟩
    · rintro ⟨a, same⟩
      rw [refused] at same
      cases same
    · rw [refused] at same
      cases same
    · rw [refused] at same
      cases same
      refine ⟨linearityFaults_eq g, ?_⟩
      rw [linearityFaults_eq, List.map_map]
      rfl

/-- A right-linear grammar whose nonterminals are named like additional states, one of which has an
empty right-hand side beside another one. -/
def crowded : Grammar where
  start := "S"
  nonterminals := .ofList ["S", "qF", "qF'"]
  terminals := .ofList ['a', 'b']
  productions := .ofList [
    ⟨"S", [.terminal 'a']⟩, ⟨"S", [.terminal 'a', .nonterminal "qF"]⟩,
    ⟨"qF", []⟩, ⟨"qF", [.terminal 'b', .nonterminal "qF'"]⟩, ⟨"qF'", [.terminal 'b']⟩]

/-- The crowded grammar with two productions that are not right-linear. -/
def overfull : Grammar :=
  { crowded with
    productions := (crowded.productions.insert ⟨"qF", [.nonterminal "S"]⟩).insert
      ⟨"S", [.nonterminal "S", .terminal 'a']⟩ }

/-- The crowded grammar has an automaton, which accepts `abb`; the overfull one is refused, and its
two faults are written in the order of its rules. -/
theorem toAutomaton_recognizes_crowded :
    crowded.WellFormed ∧
      (∃ a, crowded.toAutomaton = .ok a ∧ a.accepts ['a', 'b', 'b'] = true) ∧
      overfull.WellFormed ∧
      ∃ faults, overfull.toAutomaton = .error faults ∧
        faults.map (·.place.text) = ["S -> Sa", "<qF> -> S"] := by
  have wf : crowded.WellFormed := by decide +kernel
  have wf' : overfull.WellFormed := by decide +kernel
  have linear : crowded.RightLinear := by decide +kernel
  have other : ¬ overfull.RightLinear := by decide +kernel
  obtain ⟨built, accepted, _⟩ := toAutomaton_recognizes wf
  obtain ⟨_, _, refused⟩ := toAutomaton_recognizes wf'
  obtain ⟨a, same⟩ := built.2 linear
  have abb : crowded.Language ['a', 'b', 'b'] := by
    rw [language_iff, linear.yields_cons_iff]
    refine .inr ⟨"qF", by decide +kernel, ?_⟩
    rw [linear.yields_cons_iff]
    refine .inr ⟨"qF'", by decide +kernel, ?_⟩
    rw [linear.yields_cons_iff]
    exact .inl ⟨by decide +kernel, rfl⟩
  refine ⟨wf, ⟨a, same, (accepted a same _).2 abb⟩, wf', _, toAutomaton_of_not_rightLinear other, ?_⟩
  rw [(refused _ (toAutomaton_of_not_rightLinear other)).2]
  decide +kernel

end FormalLanguages.Grammar
