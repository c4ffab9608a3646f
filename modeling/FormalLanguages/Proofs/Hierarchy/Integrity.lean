import FormalLanguages.Proofs.Hierarchy.Level

/-! # Which phrase-structure grammars are classified

A grammar gets a level unless something is wrong with it, and nothing is wrong just when it is
`PhraseGrammar.WellFormed`: all symbols are declared, and every left-hand side has a nonterminal to
rewrite. -/

namespace FormalLanguages.PhraseGrammar

variable {g : PhraseGrammar}

/-- A phrase-structure grammar is **well formed** when it declares its start and all symbols of its
rules, and every left-hand side holds a nonterminal. -/
structure WellFormed (g : PhraseGrammar) : Prop where
  /-- The start is a declared nonterminal. -/
  start_mem : g.start ∈ g.nonterminals
  /-- Left-hand sides hold declared symbols only. -/
  declares_lhs : ∀ lhs, lhs ∈ g.leftSides → ∀ s ∈ lhs, g.Declares s
  /-- Right-hand sides hold declared symbols only. -/
  declares_rhs : ∀ r, r ∈ g.productions → ∀ s ∈ r.rhs, g.Declares s
  /-- There is something to rewrite on every left-hand side. -/
  rewrites : ∀ lhs, lhs ∈ g.leftSides → ∃ name, .nonterminal name ∈ lhs

/-- Declared symbols are no fault. -/
theorem unknown?_eq_none_iff {s : Symbol} : g.unknown? s = none ↔ g.Declares s := by
  unfold unknown?
  split
  · rename_i declared
    exact iff_of_true rfl declared
  · rename_i undeclared
    refine iff_of_false ?_ undeclared
    cases s <;> exact Option.some_ne_none _

/-- A form without nonterminals consists of letters. -/
theorem all_isTerminal_iff {form : Form} :
    form.all Symbol.isTerminal = true ↔ ¬ ∃ name, .nonterminal name ∈ form := by
  rw [List.all_eq_true]
  constructor
  · rintro letters ⟨name, mem⟩
    exact Bool.false_ne_true (letters _ mem)
  · intro none s mem
    cases s with
    | terminal c => rfl
    | nonterminal name => exact absurd ⟨name, mem⟩ none

/-- Nothing is wrong with a rule whose symbols are declared and whose left-hand side has a
nonterminal. -/
theorem faultOfRule_eq_none_iff {lhs : Form} {alternatives : SortedSet Form} :
    g.faultOfRule (lhs, alternatives) = none ↔
      (∀ s ∈ lhs, g.Declares s) ∧ (∀ rhs, rhs ∈ alternatives → ∀ s ∈ rhs, g.Declares s) ∧
        ∃ name, .nonterminal name ∈ lhs := by
  have known : (lhs ++ alternatives.toList.flatten).findSome? g.unknown? = none ↔
      (∀ s ∈ lhs, g.Declares s) ∧ ∀ rhs, rhs ∈ alternatives → ∀ s ∈ rhs, g.Declares s := by
    simp only [List.findSome?_eq_none_iff, unknown?_eq_none_iff, List.forall_mem_append,
      List.forall_mem_flatten, SortedSet.mem_toList]
  rw [← and_assoc, ← known, faultOfRule]
  split
  · rename_i fault found
    exact iff_of_false (Option.some_ne_none _) fun h => by simp [found] at h
  · rename_i none
    rw [and_iff_right none]
    split
    · rename_i letters
      exact iff_of_false (Option.some_ne_none _) (all_isTerminal_iff.1 letters)
    · rename_i other
      exact iff_of_true rfl (Classical.not_not.1 (mt all_isTerminal_iff.2 other))

/-- **Nothing is wrong** with the well-formed grammars. -/
theorem firstFault_eq_none_iff : g.firstFault = none ↔ g.WellFormed := by
  have rules : (g.rules.findSome? fun rule =>
        (g.faultOfRule rule).map (Diagnostic.mk (.rewriting rule.1 rule.2.toList))) = none ↔
      ∀ lhs, lhs ∈ g.leftSides → g.faultOfRule (lhs, g.alternatives lhs) = none := by
    simp only [List.findSome?_eq_none_iff, Option.map_eq_none_iff, PhraseGrammar.rules,
      List.forall_mem_map, SortedSet.mem_toList]
  unfold firstFault
  split
  · rename_i start
    rw [rules]
    constructor
    · intro sound
      refine ⟨start, fun lhs mem => (faultOfRule_eq_none_iff.1 (sound lhs mem)).1,
        fun r mem => ?_, fun lhs mem => (faultOfRule_eq_none_iff.1 (sound lhs mem)).2.2⟩
      have alternative : r.rhs ∈ g.alternatives r.lhs := mem_alternatives.2 mem
      exact (faultOfRule_eq_none_iff.1 (sound r.lhs (lhs_mem_leftSides mem))).2.1 r.rhs alternative
    · intro wf lhs mem
      refine faultOfRule_eq_none_iff.2 ⟨wf.declares_lhs lhs mem, fun rhs alternative => ?_,
        wf.rewrites lhs mem⟩
      exact wf.declares_rhs _ (mem_alternatives.1 alternative)
  · rename_i undeclared
    exact iff_of_false (Option.some_ne_none _) fun wf => undeclared wf.start_mem

/-- **A grammar is classified** by its level when it is well formed. -/
theorem classify_eq_ok_iff {level : Level} :
    g.classify = .ok level ↔ g.WellFormed ∧ g.level = level := by
  rw [← firstFault_eq_none_iff, classify]
  split
  · rename_i fault found
    simp [found]
  · rename_i none
    simp [none]

end FormalLanguages.PhraseGrammar
