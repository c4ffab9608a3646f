import FormalLanguages.Proofs.Hierarchy.Classification

/-! # How far the productions decide the type

Neither the order nor the grouping in which rules are added leaves a trace in a phrase-structure
grammar (`PhraseGrammar.SameRules.addRules_eq_addRules`), but a left-hand side that is given no
alternatives does: it is a rule without productions. A single nonterminal of this kind does not
change the type. Anything else is a context and keeps the grammar from type 2, so two grammars with
the same productions have the same type just when a production has a context already, or both or
neither have an idle one (`PhraseGrammar.classify_eq_classify_iff`). -/

namespace FormalLanguages.PhraseGrammar

variable {g h : PhraseGrammar}

/-! ## Adding rules -/

section AddRules

variable {rules others : List (Form × List Form)}

/-- Adds several rules, one after the other. -/
def addRules (g : PhraseGrammar) (rules : List (Form × List Form)) : PhraseGrammar :=
  rules.foldl (fun g rule => g.addRule rule.1 rule.2) g

@[simp] theorem addRules_nil (g : PhraseGrammar) : g.addRules [] = g := rfl

@[simp] theorem addRules_cons (g : PhraseGrammar) (rule : Form × List Form) :
    g.addRules (rule :: rules) = (g.addRule rule.1 rule.2).addRules rules := rfl

/-- Adding rules changes nothing but the left-hand sides and the productions. -/
theorem addRules_eq (g : PhraseGrammar) (rules : List (Form × List Form)) :
    g.addRules rules =
      { g with
        heads := (g.addRules rules).heads
        productions := (g.addRules rules).productions } := by
  induction rules generalizing g with
  | nil => rfl
  | cons rule rest ih => exact ih (g.addRule rule.1 rule.2)

/-- The left-hand side of a rule that is added is remembered, whatever its alternatives. -/
theorem mem_heads_addRule {lhs head : Form} {alternatives : List Form} :
    lhs ∈ (g.addRule head alternatives).heads ↔ lhs ∈ g.heads ∨ head = lhs := by
  rw [or_comm, @eq_comm _ head]
  exact SortedSet.mem_insert

/-- A rule that is added gives one production for each of its alternatives. -/
theorem mem_productions_addRule {r : Rewriting} {head : Form} {alternatives : List Form} :
    r ∈ (g.addRule head alternatives).productions ↔
      r ∈ g.productions ∨ head = r.lhs ∧ r.rhs ∈ alternatives := by
  show r ∈ SortedSet.ofList (alternatives.map (Rewriting.mk head)) ∪ g.productions ↔ _
  rw [SortedSet.mem_union, SortedSet.mem_ofList, List.mem_map, or_comm]
  refine or_congr_right ?_
  constructor
  · rintro ⟨rhs, given, rfl⟩
    exact ⟨rfl, given⟩
  · rintro ⟨rfl, given⟩
    exact ⟨r.rhs, given, rfl⟩

theorem mem_heads_addRules {lhs : Form} :
    lhs ∈ (g.addRules rules).heads ↔ lhs ∈ g.heads ∨ ∃ rule ∈ rules, rule.1 = lhs := by
  induction rules generalizing g with
  | nil => simp
  | cons rule rest ih =>
    simp only [addRules_cons, ih, mem_heads_addRule, List.mem_cons, exists_eq_or_imp, or_assoc]

theorem mem_productions_addRules {r : Rewriting} :
    r ∈ (g.addRules rules).productions ↔
      r ∈ g.productions ∨ ∃ rule ∈ rules, rule.1 = r.lhs ∧ r.rhs ∈ rule.2 := by
  induction rules generalizing g with
  | nil => simp
  | cons rule rest ih =>
    simp only [addRules_cons, ih, mem_productions_addRule, List.mem_cons, exists_eq_or_imp,
      or_assoc]

/-- Lists of rules that **differ in order and grouping only**: a left-hand side may be given its
alternatives in several rules, and an alternative may be given to it more than once. -/
structure SameRules (rules others : List (Form × List Form)) : Prop where
  /-- The left-hand sides are the same. -/
  heads : ∀ lhs, (∃ rule ∈ rules, rule.1 = lhs) ↔ ∃ rule ∈ others, rule.1 = lhs
  /-- The left-hand sides have the same alternatives. -/
  productions : ∀ r : Rewriting, (∃ rule ∈ rules, rule.1 = r.lhs ∧ r.rhs ∈ rule.2) ↔
    ∃ rule ∈ others, rule.1 = r.lhs ∧ r.rhs ∈ rule.2

/-- **Order and grouping leave no trace** in the grammar. -/
theorem SameRules.addRules_eq_addRules (same : SameRules rules others) :
    g.addRules rules = g.addRules others := by
  have sameHeads : (g.addRules rules).heads = (g.addRules others).heads := by
    ext lhs
    rw [mem_heads_addRules, mem_heads_addRules, same.heads]
  have sameProductions : (g.addRules rules).productions = (g.addRules others).productions := by
    ext r
    rw [mem_productions_addRules, mem_productions_addRules, same.productions]
  rw [addRules_eq g rules, sameHeads, sameProductions, ← addRules_eq g others]

end AddRules

/-! ## Idle left-hand sides -/

/-- A left-hand side is **idle** when it is one of the grammar but has no productions. -/
def Idle (g : PhraseGrammar) (lhs : Form) : Prop :=
  lhs ∈ g.leftSides ∧ ∀ r, r ∈ g.productions → r.lhs ≠ lhs

/-- Some left-hand side that is not a single nonterminal is idle. -/
def HasIdleContext (g : PhraseGrammar) : Prop :=
  ∃ lhs, g.Idle lhs ∧ ∀ name, lhs ≠ [.nonterminal name]

/-- Some production is not for a single nonterminal. -/
def HasContextProduction (g : PhraseGrammar) : Prop :=
  ∃ r, r ∈ g.productions ∧ ∀ name, r.lhs ≠ [.nonterminal name]

/-- A context belongs to a production or is idle. -/
theorem hasContext_iff : g.HasContext ↔ g.HasContextProduction ∨ g.HasIdleContext := by
  constructor
  · rintro ⟨lhs, mem, context⟩
    by_cases used : ∃ r, r ∈ g.productions ∧ r.lhs = lhs
    · obtain ⟨r, produces, rfl⟩ := used
      exact .inl ⟨r, produces, context⟩
    · exact .inr ⟨lhs, ⟨mem, fun r produces same => used ⟨r, produces, same⟩⟩, context⟩
  · rintro (⟨r, produces, context⟩ | ⟨lhs, idle, context⟩)
    · exact ⟨r.lhs, lhs_mem_leftSides produces, context⟩
    · exact ⟨lhs, idle.1, context⟩

/-- What shortens a form is a production with a context. -/
theorem Shortens.hasContextProduction (shortens : g.Shortens) : g.HasContextProduction := by
  obtain ⟨r, mem, context, _⟩ := shortens
  exact ⟨r, mem, context⟩

/-- A grammar with a context does not reach type 2, and any other grammar does. -/
theorem hasContext_iff_number : g.HasContext ↔ ¬ 2 ≤ g.level.number := by
  rw [two_le_number_level_iff_not_hasContext, Classical.not_not]

/-! ## Grammars with the same productions -/

/-- Two grammars **share their productions** when they also make the same declarations. They may
differ in their idle left-hand sides. -/
structure SharesProductions (g h : PhraseGrammar) : Prop where
  /-- The start is the same. -/
  start_eq : g.start = h.start
  /-- The same nonterminals are declared. -/
  nonterminals_eq : g.nonterminals = h.nonterminals
  /-- The same terminals are declared. -/
  terminals_eq : g.terminals = h.terminals
  /-- The productions are the same. -/
  productions_eq : g.productions = h.productions

namespace SharesProductions

theorem symm (shared : g.SharesProductions h) : h.SharesProductions g :=
  ⟨shared.start_eq.symm, shared.nonterminals_eq.symm, shared.terminals_eq.symm,
    shared.productions_eq.symm⟩

theorem shortens_iff (shared : g.SharesProductions h) : g.Shortens ↔ h.Shortens := by
  rw [Shortens, Shortens, shared.productions_eq]

theorem hasContextProduction_iff (shared : g.SharesProductions h) :
    g.HasContextProduction ↔ h.HasContextProduction := by
  rw [HasContextProduction, HasContextProduction, shared.productions_eq]

/-- Right-hand sides that a regular grammar may have do not depend on idle left-hand sides. -/
theorem regularRewriting (shared : g.SharesProductions h) {r : Rewriting}
    (shape : g.RegularRewriting r) : h.RegularRewriting r := by
  cases shape with
  | letter lhs c => exact .letter lhs c
  | right lhs c n => exact .right lhs c n
  | left lhs n c => exact .left lhs n c
  | empty isolated =>
    rw [shared.start_eq, shared.productions_eq] at isolated
    rw [shared.start_eq]
    exact .empty isolated

/-- A regular grammar stays regular without its idle left-hand sides, and with others if they are
single nonterminals. -/
theorem regular (shared : g.SharesProductions h) (free : ¬ h.HasContext) (regular : g.Regular) :
    h.Regular := by
  refine ⟨fun lhs mem => ?_, fun r mem => ?_, ?_⟩
  · exact Classical.byContradiction fun context => free ⟨lhs, mem, not_exists.1 context⟩
  · exact shared.regularRewriting (regular.shape r (shared.productions_eq ▸ mem))
  · rw [← shared.productions_eq]
    exact regular.unmixed

/-- **The level depends on the productions and on having a context.** -/
theorem level_eq_level_iff (shared : g.SharesProductions h) :
    g.level = h.level ↔ (g.HasContext ↔ h.HasContext) := by
  rw [hasContext_iff_number, hasContext_iff_number]
  constructor
  · intro same
    rw [same]
  · intro context
    have one : 1 ≤ g.level.number ↔ 1 ≤ h.level.number := by
      rw [one_le_number_level_iff_not_shortens, one_le_number_level_iff_not_shortens,
        shared.shortens_iff]
    have three : 3 ≤ g.level.number ↔ 3 ≤ h.level.number := by
      constructor
      · intro top
        have free : ¬ h.HasContext := mt hasContext_iff_number.1 (by omega)
        exact three_le_number_level_iff.2 (shared.regular free (three_le_number_level_iff.1 top))
      · intro top
        have free : ¬ g.HasContext := mt hasContext_iff_number.1 (by omega)
        exact three_le_number_level_iff.2
          (shared.symm.regular free (three_le_number_level_iff.1 top))
    -- the numbers of both levels reach the same thresholds
    have top := g.level.number_le_three
    have top' := h.level.number_le_three
    exact Level.number_injective (by omega)

end SharesProductions

/-- A well-formed grammar is classified by its level. -/
theorem WellFormed.classify_eq (wf : g.WellFormed) : g.classify = .ok g.level :=
  classify_eq_ok_iff.2 ⟨wf, rfl⟩

/-- **An idle context decides the type** when no production has a context: the type is 1 with an
idle context, and 2 or 3 without. -/
theorem WellFormed.classify_of_idle (wf : g.WellFormed) (none : ¬ g.HasContextProduction) :
    (g.HasIdleContext ↔ g.classify = .ok .contextSensitive) ∧
      (¬ g.HasIdleContext ↔ g.classify = .ok .contextFree ∨ g.classify = .ok .regular) := by
  have idle : g.HasIdleContext ↔ ¬ 2 ≤ g.level.number := by
    rw [← hasContext_iff_number, hasContext_iff, or_iff_right none]
  have kept : 1 ≤ g.level.number :=
    one_le_number_level_iff_not_shortens.2 fun shortens => none shortens.hasContextProduction
  have top := g.level.number_le_three
  simp only [wf.classify_eq, Except.ok.injEq, idle, Level.eq_iff_number]
  generalize g.level.number = reached at kept top ⊢
  simp only [Level.number]
  omega

/-- **When grammars with the same productions have the same type**: just when some production has a
context, or both or neither have an idle one. Where they differ, the one with an idle context is of
type 1 and the other one of type 2 or 3. The order and the grouping in which rules are added make no
difference at all. -/
theorem classify_eq_classify_iff (shared : g.SharesProductions h) (wf : g.WellFormed)
    (wf' : h.WellFormed) :
    (g.classify = h.classify ↔
        g.HasContextProduction ∨ (g.HasIdleContext ↔ h.HasIdleContext)) ∧
      (¬ g.HasContextProduction → g.HasIdleContext → ¬ h.HasIdleContext →
        g.classify = .ok .contextSensitive ∧
          (h.classify = .ok .contextFree ∨ h.classify = .ok .regular)) ∧
      ∀ rules others, SameRules rules others → g.addRules rules = g.addRules others := by
  refine ⟨?_, fun none idle free => ?_, fun rules others same => same.addRules_eq_addRules⟩
  · rw [wf.classify_eq, wf'.classify_eq, Except.ok.injEq, shared.level_eq_level_iff, hasContext_iff,
      hasContext_iff, ← shared.hasContextProduction_iff]
    by_cases produced : g.HasContextProduction
    · simp [produced]
    · simp [produced]
  · have none' : ¬ h.HasContextProduction := mt shared.hasContextProduction_iff.2 none
    exact ⟨(wf.classify_of_idle none).1.1 idle, (wf'.classify_of_idle none').2.1 free⟩

/-- A grammar of type 3 with the single production `S → a`. -/
def brief : PhraseGrammar :=
  let declared : PhraseGrammar :=
    { start := "S", nonterminals := .ofList ["S"], terminals := .ofList ['a'] }
  declared.addRule [.nonterminal "S"] [[.terminal 'a']]

/-- The brief grammar with a rule for `SS` that has no alternatives. -/
def idling : PhraseGrammar := brief.addRule [.nonterminal "S", .nonterminal "S"] []

theorem idling_sharesProductions : idling.SharesProductions brief := ⟨rfl, rfl, rfl, by rfl⟩

/-- The idle context takes the idling grammar to type 1, so its type is not that of the brief
grammar. -/
theorem classify_eq_classify_iff_idling :
    (idling.SharesProductions brief ∧ idling.WellFormed ∧ brief.WellFormed) ∧
      (¬ idling.HasContextProduction ∧ idling.HasIdleContext ∧ ¬ brief.HasIdleContext) ∧
      idling.classify = .ok .contextSensitive ∧ idling.classify ≠ brief.classify := by
  have level : idling.classify = .ok .contextSensitive := by rfl
  have level' : brief.classify = .ok .regular := by rfl
  have wf := (classify_eq_ok_iff.1 level).1
  have wf' := (classify_eq_ok_iff.1 level').1
  have none : ¬ idling.HasContextProduction := by
    rintro ⟨r, mem, context⟩
    have only : r = ⟨[.nonterminal "S"], [.terminal 'a']⟩ :=
      (by decide +kernel : ∀ r ∈ idling.productions.toList, r = _) r mem
    exact context "S" (only ▸ rfl)
  have idle := (wf.classify_of_idle none).1.2 level
  have free : ¬ brief.HasIdleContext :=
    (wf'.classify_of_idle (mt idling_sharesProductions.hasContextProduction_iff.2 none)).2.2
      (.inr level')
  obtain ⟨same, ranks, _⟩ := classify_eq_classify_iff idling_sharesProductions wf wf'
  refine ⟨⟨idling_sharesProductions, wf, wf'⟩, ⟨none, idle, free⟩, (ranks none idle free).1, ?_⟩
  exact fun agree => (same.1 agree).elim none fun both => free (both.1 idle)

/-- The productions alone do not decide the type: a rule without alternatives takes the brief
grammar from type 3 to type 1. -/
theorem not_classify_eq_of_sharesProductions :
    idling.classify = .ok .contextSensitive ∧ brief.classify = .ok .regular ∧
      ¬ ∀ g h : PhraseGrammar, g.SharesProductions h → g.WellFormed → h.WellFormed →
        g.classify = h.classify := by
  have level : idling.classify = .ok .contextSensitive := by rfl
  have level' : brief.classify = .ok .regular := by rfl
  refine ⟨level, level', fun decides => ?_⟩
  have agree := decides idling brief idling_sharesProductions (classify_eq_ok_iff.1 level).1
    (classify_eq_ok_iff.1 level').1
  rw [level, level'] at agree
  exact absurd (Except.ok.inj agree) (by decide)

end FormalLanguages.PhraseGrammar
