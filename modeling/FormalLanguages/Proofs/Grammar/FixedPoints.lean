import FormalLanguages.Proofs.Grammar.Normalization

/-! # What normal form leaves alone

A grammar is `Normalized` when it is in normal form, has an isolated start and no useless
nonterminals. Each transformation leaves such a grammar exactly as it is, down to the names, so
these grammars are the fixed points of `Grammar.normalForm`; since its results are of this kind,
bringing a grammar into normal form twice is the same as doing it once. -/

namespace FormalLanguages.Grammar

variable {g : Grammar}

/-- Grammars with the same declarations and productions are equal. -/
theorem eq_of_components {h : Grammar} (start : g.start = h.start)
    (nonterminals : g.nonterminals = h.nonterminals) (terminals : g.terminals = h.terminals)
    (productions : g.productions = h.productions) : g = h := by
  cases g
  cases h
  cases start
  cases nonterminals
  cases terminals
  cases productions
  rfl

/-- A grammar is **normalized** when it is in normal form, its start occurs on no right-hand side,
and all its nonterminals are useful, or nothing is left but the start. -/
structure Normalized (g : Grammar) : Prop where
  /-- Every production conforms to the normal form. -/
  normal : g.IsNormal
  /-- The start occurs on no right-hand side. -/
  isolated : g.StartIsolated
  /-- No nonterminal is useless. -/
  trimmed : g.Trimmed

/-! ## Transformations of normalized grammars -/

section Unchanged

/-- In normal form no right-hand side can be thinned. -/
theorem isAmong_nullable_eq_false (normal : g.IsNormal) {p : Production} (mem : p ∈ g.productions)
    {s : Symbol} (hs : s ∈ p.rhs) : s.isAmong g.nullable = false := by
  rw [← Bool.not_eq_true]
  intro among
  obtain ⟨n, rfl, nullable⟩ := Symbol.isAmong_iff.1 among
  obtain ⟨start, isolated⟩ :=
    normal.eq_start_of_empty (normal.nil_mem_of_mem_nullable nullable)
  rw [start] at hs
  exact isolated p mem hs

/-- In normal form there is nothing to thin, and the start keeps its empty right-hand side. -/
theorem withoutErasing_of_normal (normal : g.IsNormal) : g.withoutErasing = g := by
  refine eq_of_components rfl rfl rfl ?_
  ext p
  rw [mem_withoutErasing]
  constructor
  · rintro (⟨nullable, rfl⟩ | ⟨rhs, mem, thin, _⟩)
    · exact normal.nil_mem_of_mem_nullable nullable
    · have whole : p.rhs = rhs :=
        (Form.mem_thinnings_of_forall_not fun _ hs => isAmong_nullable_eq_false normal mem hs).1 thin
      rw [← whole] at mem
      exact mem
  · intro mem
    by_cases empty : p.rhs = []
    · obtain ⟨lhs, rhs⟩ := p
      cases empty
      obtain ⟨start, _⟩ := normal.eq_start_of_empty mem
      rw [start] at mem ⊢
      exact .inl ⟨mem_nullable_iff.2 (yields_nonterminal_iff.2 ⟨[], mem, .nil⟩), rfl⟩
    · refine .inr ⟨p.rhs, mem, Form.self_mem_thinnings _, empty, fun unit => ?_⟩
      apply normal.no_unit p.lhs p.lhs
      rw [← unit]
      exact mem

/-- Without units a nonterminal is renamed to itself only. -/
theorem RenamesTo.eq_of_no_unit (noUnit : ∀ name n, ⟨name, [.nonterminal n]⟩ ∉ g.productions)
    {name other : String} (h : g.RenamesTo name other) : other = name := by
  induction h with
  | refl => rfl
  | step _ mem _ => exact absurd mem (noUnit _ _)

/-- In normal form there are no units to remove. -/
theorem withoutUnits_of_normal (wf : g.WellFormed) (normal : g.IsNormal) : g.withoutUnits = g := by
  refine eq_of_components rfl rfl rfl ?_
  ext p
  rw [mem_withoutUnits]
  constructor
  · rintro ⟨_, ⟨n, renamed, mem⟩, _⟩
    rw [renamed.eq_of_no_unit normal.no_unit] at mem
    exact mem
  · intro mem
    refine ⟨wf.lhs_mem p mem, ⟨p.lhs, .refl, mem⟩, fun n unit => ?_, fun empty => ?_⟩
    · apply normal.no_unit p.lhs n
      rw [← unit]
      exact mem
    · have vanishes : ⟨p.lhs, []⟩ ∈ g.productions := by
        rw [← empty]
        exact mem
      exact (normal.eq_start_of_empty vanishes).1

/-- Where every nonterminal is reachable, none is dropped as unreachable. -/
theorem reachablePart_of_reachable (wf : g.WellFormed)
    (all : ∀ n, n ∈ g.nonterminals → n ∈ g.reachable) : g.reachablePart = g := by
  refine eq_of_components rfl ?_ rfl ?_
  · ext n
    exact ⟨wf.declared_of_mem_reachable, all n⟩
  · ext p
    rw [mem_reachablePart]
    exact ⟨And.left, fun mem => ⟨mem, all p.lhs (wf.lhs_mem p mem)⟩⟩

/-- Where every nonterminal but perhaps an unused start is productive, none is dropped as
unproductive. -/
theorem productivePart_of_productive (wf : g.WellFormed)
    (all : ∀ n, n ∈ g.nonterminals → n ∈ g.productive ∨ g.productions = ∅ ∧ n = g.start) :
    g.productivePart = g := by
  refine eq_of_components rfl ?_ rfl ?_
  · ext n
    rw [mem_nonterminals_productivePart]
    constructor
    · rintro (rfl | productive)
      · exact wf.start_mem
      · exact wf.declared_of_mem_productive productive
    · intro declared
      rcases all n declared with productive | ⟨_, start⟩
      · exact .inr productive
      · exact .inl start
  · ext p
    rw [mem_productivePart]
    refine ⟨And.left, fun mem => ⟨mem, ?_, fun n hn => ?_⟩⟩
    · rcases all p.lhs (wf.lhs_mem p mem) with productive | ⟨none, _⟩
      · exact productive
      · rw [none] at mem
        exact absurd mem (SortedSet.not_mem_empty p)
    · rcases all n (wf.declares p mem _ hn) with productive | ⟨none, _⟩
      · exact productive
      · rw [none] at mem
        exact absurd mem (SortedSet.not_mem_empty p)

/-- In normal form no right-hand side is long enough to need a remainder. -/
theorem length_rhs_le_two (normal : g.IsNormal) {p : Production} (mem : p ∈ g.productions) :
    p.rhs.length ≤ 2 := by
  rcases conforms_iff.1 (normal p mem) with ⟨shape, _⟩ | ⟨c, shape⟩ | ⟨m, n, shape⟩
  · simp [shape]
  · simp [shape]
  · simp [shape]

/-- In normal form no letter needs a proxy. -/
theorem not_mem_proxied_of_normal (normal : g.IsNormal) (c : Char) : c ∉ g.proxied := by
  intro h
  obtain ⟨p, mem, long, occurs⟩ := mem_proxied_iff.1 h
  rcases conforms_iff.1 (normal p mem) with ⟨shape, _⟩ | ⟨d, shape⟩ | ⟨m, n, shape⟩
  · simp [shape] at long
  · simp [shape] at long
  · simp [shape] at occurs

/-- In normal form no chain nonterminal is needed. -/
theorem not_mem_chains_of_normal (normal : g.IsNormal) (ending : Form) (name : String) :
    (ending, name) ∉ g.chains := by
  intro chain
  obtain ⟨p, mem, long, shorter, _⟩ :=
    mem_remainders_iff.1 (mem_remainders_of_mem_chains chain)
  have bound := length_rhs_le_two normal mem
  omega

/-- In normal form right-hand sides are short already. -/
theorem short_of_normal (normal : g.IsNormal) {p : Production} (mem : p ∈ g.productions) :
    g.short p.rhs = p.rhs := by
  rcases conforms_iff.1 (normal p mem) with ⟨shape, _⟩ | ⟨c, shape⟩ | ⟨m, n, shape⟩
  · rw [shape, short_nil]
  · rw [shape, short_singleton]
  · rw [shape, short_pair, lifted, lifted]

/-- In normal form there is nothing to shorten. -/
theorem binarized_of_normal (normal : g.IsNormal) : g.binarized = g := by
  refine eq_of_components rfl ?_ rfl ?_
  · ext n
    rw [mem_nonterminals_binarized]
    refine ⟨?_, fun declared => .inr (.inr declared)⟩
    rintro (⟨c, hc, _⟩ | ⟨ending, chain⟩ | declared)
    · exact absurd hc (not_mem_proxied_of_normal normal c)
    · exact absurd chain (not_mem_chains_of_normal normal ending n)
    · exact declared
  · ext p
    rw [mem_binarized]
    constructor
    · rintro (⟨c, hc, _⟩ | ⟨ending, name, chain, _⟩ | ⟨q, hq, rfl⟩)
      · exact absurd hc (not_mem_proxied_of_normal normal c)
      · exact absurd chain (not_mem_chains_of_normal normal ending name)
      · rw [short_of_normal normal hq]
        exact hq
    · intro mem
      exact .inr (.inr ⟨p, mem, by rw [short_of_normal normal mem]⟩)

end Unchanged

/-! ## Fixed points -/

/-- A trimmed grammar keeps all its nonterminals. -/
theorem Trimmed.reachablePart_productivePart (wf : g.WellFormed) (trimmed : g.Trimmed) :
    g.reachablePart = g ∧ g.productivePart = g := by
  rcases trimmed with useful | ⟨none, only⟩
  · constructor
    · exact reachablePart_of_reachable wf fun n hn => mem_reachable_iff.2 (useful n hn).1
    · exact productivePart_of_productive wf fun n hn => .inl (mem_productive_iff.2 (useful n hn).2)
  · have start : ∀ n, n ∈ g.nonterminals → n = g.start := by
      intro n hn
      rw [only] at hn
      exact SortedSet.mem_singleton.1 hn
    constructor
    · refine reachablePart_of_reachable wf fun n hn => ?_
      rw [start n hn]
      exact start_mem_reachable
    · exact productivePart_of_productive wf fun n hn => .inr ⟨none, start n hn⟩

/-- Every transformation leaves a normalized grammar as it is. -/
theorem Normalized.normalForm_eq_self (wf : g.WellFormed) (h : g.Normalized) :
    g.normalForm = g := by
  obtain ⟨reachable, productive⟩ := h.trimmed.reachablePart_productivePart wf
  rw [normalForm, withFreshStart_of_isolated h.isolated, withoutErasing_of_normal h.normal,
    withoutUnits_of_normal wf h.normal, reachable, productive, reachable,
    binarized_of_normal h.normal]

/-- Declarations stay complete on the way to normal form. -/
theorem wellFormed_normalForm (wf : g.WellFormed) : g.normalForm.WellFormed :=
  wellFormed_binarized (unitFree_normalCore wf).wellFormed

/-- Bringing a grammar into normal form normalizes it. -/
theorem normalized_normalForm (wf : g.WellFormed) : g.normalForm.Normalized := by
  have free := unitFree_normalCore wf
  exact ⟨isNormal_binarized free, startIsolated_binarized free.wellFormed free.isolated,
    (trimmed_normalCore wf).binarized free.wellFormed⟩

/-- **The fixed points of normal form are the normalized grammars, and it is idempotent**: a
well-formed grammar equals its normal form just when it is normalized, and since the normal form of
every well-formed grammar is well formed and normalized, a second run changes nothing. -/
theorem normalForm_eq_self_iff (wf : g.WellFormed) :
    (g.normalForm = g ↔ g.Normalized) ∧ g.normalForm.WellFormed ∧ g.normalForm.Normalized ∧
      g.normalForm.normalForm = g.normalForm := by
  refine ⟨⟨fun fixed => ?_, fun h => h.normalForm_eq_self wf⟩, wellFormed_normalForm wf,
    normalized_normalForm wf, ?_⟩
  · rw [← fixed]
    exact normalized_normalForm wf
  · exact (normalized_normalForm wf).normalForm_eq_self (wellFormed_normalForm wf)

/-- The entangled grammar is no fixed point, but its normal form is. -/
theorem normalForm_entangled :
    entangled.WellFormed ∧ entangled.normalForm ≠ entangled ∧
      entangled.normalForm.normalForm = entangled.normalForm := by
  have wf : entangled.WellFormed := by decide +kernel
  obtain ⟨_, _, normalized, again⟩ := normalForm_eq_self_iff wf
  refine ⟨wf, fun same => ?_, again⟩
  -- the start of the entangled grammar occurs on a right-hand side
  have isolated := startIsolated_iff.1 normalized.isolated
  rw [same] at isolated
  exact absurd isolated (by decide +kernel)

end FormalLanguages.Grammar
