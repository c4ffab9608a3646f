import FormalLanguages.Symbol

/-! # Productions

A production replaces one nonterminal by a form. Productions are ordered by left-hand side and
then by right-hand side, which is the order in which every listing shows them. -/

namespace FormalLanguages

/-- A **production**: the nonterminal `lhs` may be rewritten into `rhs`. -/
structure Production where
  /-- The nonterminal that is rewritten. -/
  lhs : String
  /-- What it is rewritten into. -/
  rhs : Form
  deriving DecidableEq

namespace Production

instance : Ord Production := ⟨compareLex (compareOn lhs) (compareOn rhs)⟩

instance : Std.TransOrd Production :=
  transCmp_compareLex (transCmp_compareOn lhs) (transCmp_compareOn rhs)

instance : Std.LawfulEqOrd Production :=
  lawfulEqCmp_compareLex (transCmp_compareOn lhs) (transCmp_compareOn rhs) fun x y hl hr => by
    have left := eq_of_compareOn hl
    have right := eq_of_compareOn hr
    cases x; cases y; cases left; cases right; rfl

theorem compare_def (p q : Production) :
    compare p q = (compare p.lhs q.lhs).then (compare p.rhs q.rhs) := rfl

/-- The **written form** of a production. -/
def text (p : Production) : String := (Symbol.nonterminal p.lhs).text ++ " -> " ++ p.rhs.text

end Production

/-- The written form of several alternatives. -/
def Form.textOfAlternatives (alternatives : List Form) : String :=
  String.intercalate " | " (alternatives.map text)

end FormalLanguages
