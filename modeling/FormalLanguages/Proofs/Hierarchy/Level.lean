import FormalLanguages.Hierarchy.Level

/-! # What the level of a grammar says about its rules

The level of a grammar reaches a type number just when the levels of all its rules do, apart from
the orientations that only show in the whole grammar (`PhraseGrammar.le_number_level_iff`). Which
numbers the level of a rule reaches depends on its left-hand side: a single nonterminal always
reaches type 2, and anything else at most type 1. -/

namespace FormalLanguages

namespace Level

/-- Levels are told apart by their numbers. -/
theorem number_injective {x y : Level} (same : x.number = y.number) : x = y := by
  cases x <;> cases y <;> first | rfl | cases same

/-- There are no numbers above three. -/
theorem number_le_three (level : Level) : level.number ≤ 3 := by
  cases level <;> decide

/-- A level is told by the number that it reaches and the next one, which it does not reach. -/
theorem eq_iff_number {x y : Level} :
    x = y ↔ y.number ≤ x.number ∧ ¬ y.number + 1 ≤ x.number := by
  constructor
  · rintro rfl
    omega
  · rintro ⟨reached, missed⟩
    exact number_injective (by omega)

/-- The lowest of some levels reaches a number when all of them do. -/
theorem le_number_foldr_lower {n : Nat} {levels : List Level} :
    n ≤ (levels.foldr lower .regular).number ↔ (∀ level ∈ levels, n ≤ level.number) ∧ n ≤ 3 := by
  induction levels with
  | nil => simp [number]
  | cons level rest ih =>
    rw [List.foldr_cons, number_lower, Nat.le_min, ih, List.forall_mem_cons, and_assoc]

end Level

namespace PhraseGrammar

variable {g : PhraseGrammar} {lhs : Form} {alternatives : SortedSet Form}

/-- The left-hand sides are the heads and those of productions. -/
theorem mem_leftSides :
    lhs ∈ g.leftSides ↔ lhs ∈ g.heads ∨ ∃ r, r ∈ g.productions ∧ r.lhs = lhs := by
  rw [leftSides, SortedSet.mem_union, SortedSet.mem_image]

/-- The left-hand side of a production is one of the grammar. -/
theorem lhs_mem_leftSides {r : Rewriting} (mem : r ∈ g.productions) : r.lhs ∈ g.leftSides :=
  mem_leftSides.2 (.inr ⟨r, mem, rfl⟩)

/-! ## The level of a rule -/

/-- A rule for a single nonterminal is regular if all its alternatives may be. -/
theorem levelOfRule_single (name : String) :
    g.levelOfRule ([.nonterminal name], alternatives) =
      if alternatives.toList.all (g.allowsRegular name) then .regular else .contextFree := rfl

/-- A rule for anything else is context-sensitive if no alternative is shorter. -/
theorem levelOfRule_of_not_single (other : ∀ name, lhs ≠ [.nonterminal name]) :
    g.levelOfRule (lhs, alternatives) =
      if alternatives.toList.all (lhs.length ≤ ·.length) then .contextSensitive
      else .unrestricted := by
  unfold levelOfRule
  split
  · rename_i name single
    exact absurd single (other name)
  · rfl

/-- **Type 3**: a single nonterminal whose alternatives may all be those of a regular grammar. -/
theorem three_le_number_levelOfRule_iff :
    3 ≤ (g.levelOfRule (lhs, alternatives)).number ↔
      ∃ name, lhs = [.nonterminal name] ∧
        ∀ rhs, rhs ∈ alternatives → g.allowsRegular name rhs = true := by
  by_cases single : ∃ name, lhs = [.nonterminal name]
  · obtain ⟨name, rfl⟩ := single
    rw [levelOfRule_single]
    by_cases all : alternatives.toList.all (g.allowsRegular name) = true
    · rw [if_pos all]
      exact iff_of_true (by decide) ⟨name, rfl, List.all_eq_true.1 all⟩
    · rw [if_neg all]
      refine iff_of_false (by decide) ?_
      rintro ⟨_, same, regular⟩
      cases same
      exact all (List.all_eq_true.2 regular)
  · rw [levelOfRule_of_not_single (not_exists.1 single)]
    refine iff_of_false ?_ fun ⟨name, same, _⟩ => single ⟨name, same⟩
    split <;> decide

/-- **Type 2**: a single nonterminal. -/
theorem two_le_number_levelOfRule_iff :
    2 ≤ (g.levelOfRule (lhs, alternatives)).number ↔ ∃ name, lhs = [.nonterminal name] := by
  by_cases single : ∃ name, lhs = [.nonterminal name]
  · refine iff_of_true ?_ single
    obtain ⟨name, rfl⟩ := single
    rw [levelOfRule_single]
    split <;> decide
  · refine iff_of_false ?_ single
    rw [levelOfRule_of_not_single (not_exists.1 single)]
    split <;> decide

/-- **Type 1**: a single nonterminal, or alternatives that are not shorter. -/
theorem one_le_number_levelOfRule_iff :
    1 ≤ (g.levelOfRule (lhs, alternatives)).number ↔
      (∃ name, lhs = [.nonterminal name]) ∨
        ∀ rhs, rhs ∈ alternatives → lhs.length ≤ rhs.length := by
  by_cases single : ∃ name, lhs = [.nonterminal name]
  · have reaches : 2 ≤ (g.levelOfRule (lhs, alternatives)).number :=
      two_le_number_levelOfRule_iff.2 single
    exact iff_of_true (by omega) (.inl single)
  · rw [levelOfRule_of_not_single (not_exists.1 single), or_iff_right single]
    have each : alternatives.toList.all (lhs.length ≤ ·.length) = true ↔
        ∀ rhs, rhs ∈ alternatives → lhs.length ≤ rhs.length := by
      simp only [List.all_eq_true, decide_eq_true_iff, SortedSet.mem_toList]
    rw [← each]
    split
    · rename_i all
      exact iff_of_true (by decide) all
    · rename_i some
      exact iff_of_false (by decide) some

/-! ## The level of a grammar -/

/-- A grammar with both orientations is **mixed**. -/
def Mixed (g : PhraseGrammar) : Prop :=
  g.hasOrientation .right = true ∧ g.hasOrientation .left = true

/-- **The level of a grammar** reaches a number when the levels of all rules do; a mixed grammar
does not reach type 3. -/
theorem le_number_level_iff {n : Nat} :
    n ≤ g.level.number ↔
      (∀ lhs, lhs ∈ g.leftSides → n ≤ (g.levelOfRule (lhs, g.alternatives lhs)).number) ∧
        n ≤ 3 ∧ (g.Mixed → n ≤ 2) := by
  have least : n ≤ ((g.rules.map g.levelOfRule).foldr Level.lower .regular).number ↔
      (∀ lhs, lhs ∈ g.leftSides → n ≤ (g.levelOfRule (lhs, g.alternatives lhs)).number) ∧
        n ≤ 3 := by
    rw [Level.le_number_foldr_lower, List.forall_mem_map, rules, List.forall_mem_map]
    rfl
  rw [level, ← and_assoc, ← least]
  by_cases mixed : g.Mixed
  · rw [if_pos (Bool.and_eq_true_iff.2 mixed), Level.number_lower, Nat.le_min]
    exact and_congr_right fun _ => ⟨fun le _ => le, fun le => le mixed⟩
  · rw [if_neg (mt Bool.and_eq_true_iff.1 mixed)]
    exact (and_iff_left fun h => absurd h mixed).symm

/-- **At least type 1**: productions for anything but a single nonterminal are not shorter on the
right. -/
theorem one_le_number_level_iff :
    1 ≤ g.level.number ↔ ∀ r, r ∈ g.productions →
      (∃ name, r.lhs = [.nonterminal name]) ∨ r.lhs.length ≤ r.rhs.length := by
  simp only [le_number_level_iff, one_le_number_levelOfRule_iff]
  constructor
  · rintro ⟨each, _⟩ r mem
    have alternative : r.rhs ∈ g.alternatives r.lhs := mem_alternatives.2 mem
    exact (each r.lhs (lhs_mem_leftSides mem)).imp_right fun longer => longer r.rhs alternative
  · intro each
    refine ⟨fun lhs _ => ?_, by decide, fun _ => by decide⟩
    by_cases single : ∃ name, lhs = [.nonterminal name]
    · exact .inl single
    · refine .inr fun rhs alternative => ?_
      exact (each _ (mem_alternatives.1 alternative)).resolve_left single

/-- **At least type 2**: every left-hand side is a single nonterminal. -/
theorem two_le_number_level_iff :
    2 ≤ g.level.number ↔ ∀ lhs, lhs ∈ g.leftSides → ∃ name, lhs = [.nonterminal name] := by
  rw [le_number_level_iff, and_iff_left ⟨by decide, fun _ => Nat.le_refl 2⟩]
  simp only [two_le_number_levelOfRule_iff]

end PhraseGrammar

end FormalLanguages
