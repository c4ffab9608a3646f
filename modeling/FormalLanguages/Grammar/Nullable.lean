import FormalLanguages.Grammar.Basic
import FormalLanguages.Inference

/-! # Nonterminals that vanish

A nonterminal is nullable when it derives the empty word. `Grammar.withoutErasing` drops the empty
right-hand sides and makes up for them by letting the nullable symbols of a right-hand side be left
out in every possible way. -/

namespace FormalLanguages

/-- Whether a symbol is one of the given nonterminals. -/
def Symbol.isAmong (names : SortedSet String) : Symbol → Bool
  | .terminal _ => false
  | .nonterminal n => n ∈ names

/-- All ways to leave out some occurrences of the given nonterminals. -/
def Form.thinnings (names : SortedSet String) : Form → List Form
  | [] => [[]]
  | s :: rest =>
    let thinned := thinnings names rest
    if s.isAmong names then thinned.map (s :: ·) ++ thinned else thinned.map (s :: ·)

/-- The **variants** of a form: its thinnings that leave something. -/
def Form.variants (names : SortedSet String) (form : Form) : List Form :=
  (thinnings names form).filter (!·.isEmpty)

@[simp] theorem Form.mem_variants {names : SortedSet String} {form thin : Form} :
    thin ∈ variants names form ↔ thin ∈ thinnings names form ∧ thin ≠ [] := by
  simp [variants]

namespace Grammar

/-- A nonterminal vanishes as soon as all symbols of one of its alternatives do. -/
def nullableClauses (g : Grammar) : List (Clause String) :=
  (g.productions.toList.filter fun p => p.rhs.all (!·.isTerminal)).map fun p =>
    ⟨p.lhs, Form.names p.rhs⟩

/-- The **nullable** nonterminals: those that derive the empty word. -/
def nullable (g : Grammar) : SortedSet String := consequences g.nullableClauses

/-- The variants of a production, less those that would only lead from a nonterminal to itself. -/
def thinnedProductions (nullable : SortedSet String) (p : Production) : List Production :=
  ((Form.variants nullable p.rhs).filter (· != [.nonterminal p.lhs])).map (⟨p.lhs, ·⟩)

/-- Removes the **empty right-hand sides**; a nullable start keeps one, since the empty word
belongs to the language. -/
def withoutErasing (g : Grammar) : Grammar :=
  let nullable := g.nullable
  { g with
    productions :=
      (if g.start ∈ nullable then {⟨g.start, []⟩} else ∅) ∪
        g.productions.bind (thinnedProductions nullable) }

end Grammar

end FormalLanguages
