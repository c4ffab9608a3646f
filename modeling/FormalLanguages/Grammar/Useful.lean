import FormalLanguages.Grammar.Basic
import FormalLanguages.Inference

/-! # Useful nonterminals

A nonterminal is reachable when a derivation from the start can lead to it, and productive when it
derives some word. The other nonterminals can be dropped together with the productions that mention
them. -/

namespace FormalLanguages.Grammar

/-- The start is reached, and every name on the right of a production is reached from its left. -/
def reachableClauses (g : Grammar) : List (Clause String) :=
  ⟨g.start, []⟩ ::
    g.productions.toList.flatMap fun p => (Form.names p.rhs).map fun n => ⟨n, [p.lhs]⟩

/-- The **reachable** nonterminals: those that a derivation from the start can lead to. -/
def reachable (g : Grammar) : SortedSet String := consequences g.reachableClauses

/-- Keeps the reachable nonterminals and their productions. -/
def reachablePart (g : Grammar) : Grammar :=
  let reachable := g.reachable
  { g with
    nonterminals := reachable
    productions := g.productions.filter (·.lhs ∈ reachable) }

/-- A nonterminal derives a word as soon as all names of one of its alternatives do. -/
def productiveClauses (g : Grammar) : List (Clause String) :=
  g.productions.toList.map fun p => ⟨p.lhs, Form.names p.rhs⟩

/-- The **productive** nonterminals: those that derive some word. -/
def productive (g : Grammar) : SortedSet String := consequences g.productiveClauses

/-- Keeps the productive nonterminals and the productions that mention no other; the start stays
declared in any case. -/
def productivePart (g : Grammar) : Grammar :=
  let productive := g.productive
  { g with
    nonterminals := productive.insert g.start
    productions := g.productions.filter fun p =>
      p.lhs ∈ productive && (Form.names p.rhs).all (· ∈ productive) }

end FormalLanguages.Grammar
