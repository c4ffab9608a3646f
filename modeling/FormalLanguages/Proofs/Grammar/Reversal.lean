import FormalLanguages.Proofs.Grammar.Yield

/-! # Grammars of reversed words

Reversing the right-hand sides of a grammar reverses the words that it derives
(`Grammar.language_reversed`), and doing it twice gives the grammar back. -/

namespace FormalLanguages

/-- A production with its right-hand side reversed. -/
def Production.reversed (p : Production) : Production := ⟨p.lhs, p.rhs.reverse⟩

@[simp] theorem Production.reversed_reversed (p : Production) : p.reversed.reversed = p := by
  rw [reversed, reversed, List.reverse_reverse]

namespace Grammar

/-- The grammar with all right-hand sides **reversed**. -/
def reversed (g : Grammar) : Grammar :=
  { g with productions := g.productions.image Production.reversed }

variable {g : Grammar}

@[simp] theorem start_reversed : g.reversed.start = g.start := rfl

/-- The productions are the reversed ones. -/
theorem mem_productions_reversed {p : Production} :
    p ∈ g.reversed.productions ↔ p.reversed ∈ g.productions := by
  show p ∈ g.productions.image Production.reversed ↔ _
  rw [SortedSet.mem_image]
  constructor
  · rintro ⟨q, mem, rfl⟩
    rw [Production.reversed_reversed]
    exact mem
  · intro mem
    exact ⟨p.reversed, mem, p.reversed_reversed⟩

/-- Reversing twice changes nothing. -/
@[simp] theorem reversed_reversed (g : Grammar) : g.reversed.reversed = g := by
  have productions : g.reversed.reversed.productions = g.productions := by
    ext p
    rw [mem_productions_reversed, mem_productions_reversed, Production.reversed_reversed]
  show { g with productions := g.reversed.reversed.productions } = g
  rw [productions]

/-- Declarations stay complete. -/
theorem wellFormed_reversed (wf : g.WellFormed) : g.reversed.WellFormed := by
  refine ⟨wf.start_mem, fun p mem => ?_, fun p mem s hs => ?_⟩
  · exact wf.lhs_mem p.reversed (mem_productions_reversed.1 mem)
  · exact wf.declares p.reversed (mem_productions_reversed.1 mem) s (List.mem_reverse.2 hs)

/-- What a form yields, the reversed form yields reversed. -/
theorem Yields.reversed {form : Form} {word : List Char} (d : g.Yields form word) :
    g.reversed.Yields form.reverse word.reverse := by
  induction d with
  | nil => exact .nil
  | letter _ ih =>
    rw [List.reverse_cons, List.reverse_cons]
    exact ih.append (.letter .nil)
  | @expand name rhs rest first second mem _ _ ihHead ihTail =>
    have turned : ⟨name, rhs.reverse⟩ ∈ g.reversed.productions := by
      rw [mem_productions_reversed, Production.reversed, List.reverse_reverse]
      exact mem
    rw [List.reverse_cons, List.reverse_append]
    exact ihTail.append (yields_nonterminal_iff.2 ⟨rhs.reverse, turned, ihHead⟩)

/-- **The reversed grammar derives the reversed words.** -/
theorem language_reversed {word : List Char} :
    g.reversed.Language word.reverse ↔ g.Language word := by
  rw [language_iff, language_iff]
  constructor
  · intro d
    have back := d.reversed
    rw [reversed_reversed, List.reverse_reverse] at back
    exact back
  · exact Yields.reversed

end Grammar

end FormalLanguages
