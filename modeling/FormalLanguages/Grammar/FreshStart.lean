import FormalLanguages.Grammar.Basic
import FormalLanguages.Naming

/-! # A start that occurs on no right-hand side -/

namespace FormalLanguages.Grammar

/-- Gives a grammar whose start occurs on a right-hand side a **fresh start**, which is named after
the old one and only rewritten into it. -/
def withFreshStart (g : Grammar) : Grammar :=
  if g.occursOnRight g.start then
    let fresh := freshPrimed g.nonterminals (g.start ++ "'")
    { start := fresh
      nonterminals := g.nonterminals.insert fresh
      terminals := g.terminals
      productions := g.productions.insert ⟨fresh, [.nonterminal g.start]⟩ }
  else g

end FormalLanguages.Grammar
