import FormalLanguages.Proofs.Grammar.Yield
import FormalLanguages.RightLinear.ToAutomaton

/-! # Words of right-linear grammars

A right-linear production contributes at most one letter and leaves at most one nonterminal behind
it. What a nonterminal of a right-linear grammar yields can therefore be read letter by letter
(`Grammar.RightLinear.yields_nil_iff`, `Grammar.RightLinear.yields_cons_iff`). -/

namespace FormalLanguages

/-- **Right-linear forms** are empty, a letter, or a letter followed by a nonterminal. -/
inductive Form.RightLinear : Form → Prop
  /-- The empty form is right-linear. -/
  | empty : RightLinear []
  /-- A letter is right-linear. -/
  | letter (c : Char) : RightLinear [.terminal c]
  /-- A letter followed by a nonterminal is right-linear. -/
  | linked (c : Char) (n : String) : RightLinear [.terminal c, .nonterminal n]

/-- Right-linear forms are told apart from the others. -/
theorem Form.isRightLinear_iff {form : Form} :
    isRightLinear form = true ↔ RightLinear form := by
  constructor
  · intro h
    unfold isRightLinear at h
    split at h
    · exact .empty
    · exact .letter _
    · exact .linked _ _
    · cases h
  · rintro (_ | _ | _)
    · rfl
    · rfl
    · rfl

instance (form : Form) : Decidable (Form.RightLinear form) :=
  decidable_of_iff _ Form.isRightLinear_iff

namespace Grammar

/-- A grammar is **right-linear** when all its right-hand sides are. -/
def RightLinear (g : Grammar) : Prop := ∀ p, p ∈ g.productions → Form.RightLinear p.rhs

instance (g : Grammar) : Decidable g.RightLinear :=
  inferInstanceAs (Decidable (∀ p, p ∈ g.productions → Form.RightLinear p.rhs))

variable {g : Grammar}

/-- The empty word is yielded by an empty right-hand side. -/
theorem RightLinear.yields_nil_iff (linear : g.RightLinear) {name : String} :
    g.Yields [.nonterminal name] [] ↔ ⟨name, []⟩ ∈ g.productions := by
  rw [yields_nonterminal_iff]
  constructor
  · rintro ⟨rhs, mem, d⟩
    cases linear _ mem with
    | empty => exact mem
    | letter c => cases d
    | linked c n => cases d
  · intro mem
    exact ⟨[], mem, .nil⟩

/-- **A longer word is yielded letter by letter**: its first letter is all that a production
contributes, or the rest is yielded by the nonterminal behind it. -/
theorem RightLinear.yields_cons_iff (linear : g.RightLinear) {name : String} {c : Char}
    {rest : List Char} :
    g.Yields [.nonterminal name] (c :: rest) ↔
      (⟨name, [.terminal c]⟩ ∈ g.productions ∧ rest = []) ∨
        ∃ n, ⟨name, [.terminal c, .nonterminal n]⟩ ∈ g.productions ∧
          g.Yields [.nonterminal n] rest := by
  rw [yields_nonterminal_iff]
  constructor
  · rintro ⟨rhs, mem, d⟩
    cases linear _ mem with
    | empty => cases d
    | letter b =>
      cases d with
      | letter tail => exact .inl ⟨mem, FormalLanguages.Grammar.yields_nil_iff.1 tail⟩
    | linked b n =>
      cases d with
      | letter tail => exact .inr ⟨n, mem, tail⟩
  · rintro (⟨mem, rfl⟩ | ⟨n, mem, tail⟩)
    · exact ⟨_, mem, .letter .nil⟩
    · exact ⟨_, mem, .letter tail⟩

end Grammar

end FormalLanguages
