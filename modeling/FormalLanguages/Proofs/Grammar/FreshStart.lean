import FormalLanguages.Grammar.FreshStart
import FormalLanguages.Proofs.Grammar.Yield

/-! # A start that occurs on no right-hand side

`Grammar.withFreshStart` leads to a grammar with an isolated start. A fresh start only passes on to
the old one, whose derivations never meet the fresh name, so the language stays the same. -/

namespace FormalLanguages.Grammar

variable {g : Grammar}

/-- A grammar has an **isolated start** when its start occurs on no right-hand side. -/
def StartIsolated (g : Grammar) : Prop :=
  ∀ p, p ∈ g.productions → .nonterminal g.start ∉ p.rhs

/-- The start is isolated just when it is not found on any right-hand side. -/
theorem startIsolated_iff : g.StartIsolated ↔ g.occursOnRight g.start = false := by
  rw [← Bool.not_eq_true, occursOnRight_iff]
  constructor
  · rintro isolated ⟨p, mem, occurs⟩
    exact isolated p mem occurs
  · intro none p mem occurs
    exact none ⟨p, mem, occurs⟩

/-- An isolated start is kept. -/
theorem withFreshStart_of_isolated (isolated : g.StartIsolated) : g.withFreshStart = g := by
  rw [withFreshStart, startIsolated_iff.1 isolated, if_neg Bool.false_ne_true]

/-- The name of a fresh start. -/
def freshStart (g : Grammar) : String := freshPrimed g.nonterminals (g.start ++ "'")

theorem freshStart_not_declared : g.freshStart ∉ g.nonterminals := freshPrimed_not_taken _ _

section Occurring

variable (occurs : g.occursOnRight g.start = true)

include occurs

theorem start_withFreshStart : g.withFreshStart.start = g.freshStart := by
  rw [withFreshStart, if_pos occurs, freshStart]

theorem mem_nonterminals_withFreshStart {n : String} :
    n ∈ g.withFreshStart.nonterminals ↔ n = g.freshStart ∨ n ∈ g.nonterminals := by
  rw [withFreshStart, if_pos occurs]
  exact SortedSet.mem_insert

theorem mem_productions_withFreshStart {p : Production} :
    p ∈ g.withFreshStart.productions ↔
      p = ⟨g.freshStart, [.nonterminal g.start]⟩ ∨ p ∈ g.productions := by
  rw [withFreshStart, if_pos occurs]
  exact SortedSet.mem_insert

/-- Declared nonterminals keep their productions. -/
theorem mem_of_mem_withFreshStart {p : Production} (mem : p ∈ g.withFreshStart.productions)
    (declared : p.lhs ∈ g.nonterminals) : p ∈ g.productions := by
  rcases (mem_productions_withFreshStart occurs).1 mem with rfl | mem
  · exact absurd declared freshStart_not_declared
  · exact mem

/-- The fresh start yields what the old start yields. -/
theorem yields_freshStart_iff (wf : g.WellFormed) {word : List Char} :
    g.withFreshStart.Yields [.nonterminal g.freshStart] word ↔
      g.Yields [.nonterminal g.start] word := by
  constructor
  · intro d
    obtain ⟨rhs, mem, d⟩ := yields_nonterminal_iff.1 d
    have passes : rhs = [.nonterminal g.start] := by
      rcases (mem_productions_withFreshStart occurs).1 mem with same | mem
      · exact congrArg Production.rhs same
      · exact absurd (wf.lhs_mem _ mem) freshStart_not_declared
    rw [passes] at d
    -- from the old start on, a derivation stays among declared nonterminals
    refine d.restrict (· ∈ g.nonterminals) ?_ (Form.forall_names_singleton wf.start_mem)
    intro p mem declared
    have mem := mem_of_mem_withFreshStart occurs mem declared
    exact ⟨mem, fun n hn => wf.declares p mem _ hn⟩
  · intro d
    have kept : g.withFreshStart.Yields [.nonterminal g.start] word :=
      d.mono fun p mem => (mem_productions_withFreshStart occurs).2 (.inr mem)
    exact yields_nonterminal_iff.2
      ⟨_, (mem_productions_withFreshStart occurs).2 (.inl rfl), kept⟩

end Occurring

/-- A grammar has an isolated start, or a fresh start is put before it. -/
theorem isolated_or_occurs (g : Grammar) : g.StartIsolated ∨ g.occursOnRight g.start = true := by
  rw [startIsolated_iff]
  cases g.occursOnRight g.start <;> simp

@[simp] theorem terminals_withFreshStart : g.withFreshStart.terminals = g.terminals := by
  rcases g.isolated_or_occurs with isolated | occurs
  · rw [withFreshStart_of_isolated isolated]
  · rw [withFreshStart, if_pos occurs]

/-- **A fresh start keeps the language.** -/
theorem language_withFreshStart (wf : g.WellFormed) {word : List Char} :
    g.withFreshStart.Language word ↔ g.Language word := by
  rcases g.isolated_or_occurs with isolated | occurs
  · rw [withFreshStart_of_isolated isolated]
  · rw [language_iff, language_iff, start_withFreshStart occurs]
    exact yields_freshStart_iff occurs wf

/-- Declarations stay complete. -/
theorem wellFormed_withFreshStart (wf : g.WellFormed) : g.withFreshStart.WellFormed := by
  rcases g.isolated_or_occurs with isolated | occurs
  · rw [withFreshStart_of_isolated isolated]
    exact wf
  · refine ⟨?_, fun p mem => ?_, fun p mem s hs => ?_⟩
    · rw [start_withFreshStart occurs, mem_nonterminals_withFreshStart occurs]
      exact .inl rfl
    · rw [mem_nonterminals_withFreshStart occurs]
      rcases (mem_productions_withFreshStart occurs).1 mem with rfl | mem
      · exact .inl rfl
      · exact .inr (wf.lhs_mem p mem)
    · have declared : g.Declares s := by
        rcases (mem_productions_withFreshStart occurs).1 mem with rfl | mem
        · rw [List.mem_singleton.1 hs]
          exact wf.start_mem
        · exact wf.declares p mem s hs
      cases s with
      | terminal c => rwa [declares_terminal, terminals_withFreshStart]
      | nonterminal n => exact (mem_nonterminals_withFreshStart occurs).2 (.inr declared)

/-- **The start becomes isolated.** -/
theorem startIsolated_withFreshStart (wf : g.WellFormed) : g.withFreshStart.StartIsolated := by
  rcases g.isolated_or_occurs with isolated | occurs
  · rw [withFreshStart_of_isolated isolated]
    exact isolated
  · intro p mem hn
    rw [start_withFreshStart occurs] at hn
    rcases (mem_productions_withFreshStart occurs).1 mem with rfl | mem
    · rw [List.mem_singleton, Symbol.nonterminal.injEq] at hn
      exact freshStart_not_declared (hn ▸ wf.start_mem)
    · exact freshStart_not_declared (wf.declares p mem _ hn)

end FormalLanguages.Grammar
