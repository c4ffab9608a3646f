import FormalLanguages.Proofs.Grammar.FreshStart
import FormalLanguages.Proofs.Grammar.Renaming
import FormalLanguages.Proofs.Grammar.Usefulness
import FormalLanguages.Proofs.Grammar.Vanishing

/-! # What transformations leave in order

The transformations of grammars keep declarations complete and an isolated start isolated. What one
of them achieves the later ones do not undo: a grammar without units and in which only the start
vanishes (`UnitFree`) stays one when useless nonterminals are dropped. -/

namespace FormalLanguages.Grammar

variable {g : Grammar}

/-! ## Without empty right-hand sides -/

/-- Declarations stay complete. -/
theorem wellFormed_withoutErasing (wf : g.WellFormed) : g.withoutErasing.WellFormed := by
  refine ⟨wf.start_mem, fun p mem => ?_, fun p mem s hs => ?_⟩
  · rcases mem_withoutErasing.1 mem with ⟨_, same⟩ | ⟨rhs, source, _⟩
    · rw [same]
      exact wf.start_mem
    · exact wf.lhs_mem ⟨p.lhs, rhs⟩ source
  · obtain ⟨rhs, mem, hs⟩ := exists_mem_of_mem_withoutErasing mem hs
    exact wf.declares _ mem s hs

/-- The start stays isolated. -/
theorem startIsolated_withoutErasing (isolated : g.StartIsolated) :
    g.withoutErasing.StartIsolated := by
  intro p mem hs
  obtain ⟨rhs, mem, hs⟩ := exists_mem_of_mem_withoutErasing mem hs
  exact isolated _ mem hs

/-- With an isolated start, removing empty right-hand sides prepares for removing units. -/
theorem vanishesAtStart_withoutErasing (isolated : g.StartIsolated) :
    g.withoutErasing.VanishesAtStart where
  eq_start_of_empty _ mem := (nil_mem_withoutErasing_iff (g := g).1 mem).1
  eq_start_of_unit _ _ mem :=
    absurd List.mem_cons_self (startIsolated_withoutErasing isolated _ mem)

/-! ## Without unit productions -/

/-- Declarations stay complete. -/
theorem wellFormed_withoutUnits (wf : g.WellFormed) : g.withoutUnits.WellFormed := by
  refine ⟨wf.start_mem, fun p mem => (mem_withoutUnits.1 mem).1, fun p mem s hs => ?_⟩
  obtain ⟨_, ⟨n, _, source⟩, _⟩ := mem_withoutUnits.1 mem
  exact wf.declares _ source s hs

/-- The start stays isolated. -/
theorem startIsolated_withoutUnits (isolated : g.StartIsolated) :
    g.withoutUnits.StartIsolated := by
  intro p mem hs
  obtain ⟨_, ⟨n, _, source⟩, _⟩ := mem_withoutUnits.1 mem
  exact isolated _ source hs

/-- A grammar is **free of units** when it is well formed, its start is isolated, only its start
vanishes, and no right-hand side is a single nonterminal. -/
structure UnitFree (g : Grammar) : Prop where
  /-- All symbols are declared. -/
  wellFormed : g.WellFormed
  /-- The start occurs on no right-hand side. -/
  isolated : g.StartIsolated
  /-- Empty right-hand sides belong to the start. -/
  eq_start_of_empty : ∀ name, ⟨name, []⟩ ∈ g.productions → name = g.start
  /-- No production only renames. -/
  no_unit : ∀ name n, ⟨name, [.nonterminal n]⟩ ∉ g.productions

/-- Removing units leads to a grammar that is free of units. -/
theorem unitFree_withoutUnits (wf : g.WellFormed) (isolated : g.StartIsolated) :
    g.withoutUnits.UnitFree where
  wellFormed := wellFormed_withoutUnits wf
  isolated := startIsolated_withoutUnits isolated
  eq_start_of_empty _ mem := (mem_withoutUnits.1 mem).2.2.2 rfl
  no_unit := unit_not_mem_withoutUnits

/-- Fewer productions are free of units as well. -/
theorem UnitFree.of_subset {h : Grammar} (free : g.UnitFree) (wf : h.WellFormed)
    (start : h.start = g.start) (sub : h.productions ⊆ g.productions) : h.UnitFree where
  wellFormed := wf
  isolated p mem hs := free.isolated p (sub p mem) (start ▸ hs)
  eq_start_of_empty name mem := by
    rw [start]
    exact free.eq_start_of_empty name (sub _ mem)
  no_unit name n mem := free.no_unit name n (sub _ mem)

/-! ## Without useless nonterminals -/

/-- Reachable nonterminals are declared. -/
theorem WellFormed.declared_of_mem_reachable (wf : g.WellFormed) {n : String}
    (h : n ∈ g.reachable) : n ∈ g.nonterminals := by
  refine reachable_induction (· ∈ g.nonterminals) wf.start_mem ?_ h
  intro p mem _ _ n hn
  exact wf.declares p mem _ hn

/-- Nonterminals that generate a word are declared. -/
theorem WellFormed.declared_of_generates (wf : g.WellFormed) {n : String} {word : List Char}
    (h : g.Generates n word) : n ∈ g.nonterminals := by
  obtain ⟨rhs, mem, _⟩ := yields_nonterminal_iff.1 (generates_iff.1 h)
  exact wf.lhs_mem _ mem

/-- Productive nonterminals are declared. -/
theorem WellFormed.declared_of_mem_productive (wf : g.WellFormed) {n : String}
    (h : n ∈ g.productive) : n ∈ g.nonterminals := by
  obtain ⟨word, generated⟩ := mem_productive_iff.1 h
  exact wf.declared_of_generates generated

/-- Declarations stay complete when unreachable nonterminals are dropped. -/
theorem wellFormed_reachablePart (wf : g.WellFormed) : g.reachablePart.WellFormed := by
  refine ⟨start_mem_reachable, fun p mem => (mem_reachablePart.1 mem).2, fun p mem s hs => ?_⟩
  obtain ⟨mem, left⟩ := mem_reachablePart.1 mem
  cases s with
  | terminal c => exact wf.declares p mem _ hs
  | nonterminal n => exact mem_reachable_of_mem_rhs mem left hs

/-- Declarations stay complete when unproductive nonterminals are dropped. -/
theorem wellFormed_productivePart (wf : g.WellFormed) : g.productivePart.WellFormed := by
  refine ⟨mem_nonterminals_productivePart.2 (.inl rfl), fun p mem => ?_, fun p mem s hs => ?_⟩
  · exact mem_nonterminals_productivePart.2 (.inr (mem_productivePart.1 mem).2.1)
  · obtain ⟨mem, _, inside⟩ := mem_productivePart.1 mem
    cases s with
    | terminal c => exact wf.declares p mem _ hs
    | nonterminal n => exact mem_nonterminals_productivePart.2 (.inr (inside n hs))

theorem UnitFree.reachablePart (free : g.UnitFree) : g.reachablePart.UnitFree :=
  free.of_subset (wellFormed_reachablePart free.wellFormed) rfl
    fun _ mem => (mem_reachablePart.1 mem).1

theorem UnitFree.productivePart (free : g.UnitFree) : g.productivePart.UnitFree :=
  free.of_subset (wellFormed_productivePart free.wellFormed) rfl
    fun _ mem => (mem_productivePart.1 mem).1

/-- A grammar is **trimmed** when every declared nonterminal is useful, or nothing is left but the
start. -/
def Trimmed (g : Grammar) : Prop :=
  (∀ n, n ∈ g.nonterminals → g.Reachable n ∧ g.Productive n) ∨
    (g.productions = ∅ ∧ g.nonterminals = {g.start})

/-- With a productive start, everything that remains reachable is useful. -/
theorem useful_of_start_mem_productive (wf : g.WellFormed) (start : g.start ∈ g.productive)
    {n : String} (h : n ∈ g.productivePart.reachable) :
    g.productivePart.reachablePart.Reachable n ∧ g.productivePart.reachablePart.Productive n := by
  rw [← mem_reachable_iff, ← mem_productive_iff, reachable_reachablePart]
  refine ⟨h, ?_⟩
  have kept : n ∈ g.productive := by
    have declared := (wellFormed_productivePart wf).declared_of_mem_reachable h
    rcases mem_nonterminals_productivePart.1 declared with rfl | kept
    · exact start
    · exact kept
  rw [← productive_productivePart] at kept
  obtain ⟨word, d⟩ := mem_productive_iff_yields.1 kept
  exact mem_productive_iff_yields.2 ⟨word, (yields_nonterminal_reachablePart_iff h).2 d⟩

/-- With an unproductive start, nothing but the start remains reachable. -/
theorem eq_start_of_mem_reachable (unproductive : g.start ∉ g.productive) {n : String}
    (h : n ∈ g.productivePart.reachable) : n = g.start := by
  refine reachable_induction (g := g.productivePart) (· = g.start) rfl ?_ h
  intro p mem _ left n _
  have kept := (mem_productivePart.1 mem).2.1
  rw [left] at kept
  exact absurd kept unproductive

/-- **Dropping unproductive and then unreachable nonterminals trims a grammar.** -/
theorem trimmed_reachablePart_productivePart (wf : g.WellFormed) :
    g.productivePart.reachablePart.Trimmed := by
  by_cases start : g.start ∈ g.productive
  · exact .inl fun n h => useful_of_start_mem_productive wf start h
  · refine .inr ⟨?_, ?_⟩
    · ext p
      refine iff_of_false (fun mem => ?_) (SortedSet.not_mem_empty p)
      obtain ⟨mem, left⟩ := mem_reachablePart.1 mem
      have kept := (mem_productivePart.1 mem).2.1
      rw [eq_start_of_mem_reachable start left] at kept
      exact start kept
    · ext n
      rw [SortedSet.mem_singleton]
      refine ⟨eq_start_of_mem_reachable start, fun same => ?_⟩
      rw [same]
      exact start_mem_reachable (g := g.productivePart)

end FormalLanguages.Grammar
