import FormalLanguages.Grammar.Basic
import FormalLanguages.Naming

/-! # Right-hand sides of at most two symbols

`Grammar.binarized` shortens right-hand sides. In those of two or more symbols each letter is
replaced by a proxy, a nonterminal that derives only this letter. In those of three or more symbols
all but the first symbol are replaced by a chain nonterminal, which derives this remainder in the
same manner. Equal letters share a proxy and equal remainders share a chain nonterminal. -/

namespace FormalLanguages

/-- The proper suffixes of at least two symbols, longest first. -/
def Form.remainders : Form → List Form
  | [] => []
  | _ :: rest => if 2 ≤ rest.length then rest :: remainders rest else []

namespace Grammar

/-- The name of the proxy of a letter. -/
def proxyName (g : Grammar) (c : Char) : String :=
  freshPrimed g.nonterminals ("T_" ++ c.toString)

/-- The symbol that replaces a symbol in a longer right-hand side. -/
def lifted (g : Grammar) : Symbol → Symbol
  | .terminal c => .nonterminal (g.proxyName c)
  | .nonterminal n => .nonterminal n

/-- The letters that need a proxy. -/
def proxied (g : Grammar) : SortedSet Char :=
  g.productions.bind fun p => if 2 ≤ p.rhs.length then Form.letters p.rhs else []

/-- The remainders that need a chain nonterminal, in the order in which the productions bring
them up. -/
def remainders (g : Grammar) : List Form :=
  (g.productions.toList.flatMap fun p => Form.remainders p.rhs).eraseDups

/-- Each remainder with the name of its chain nonterminal. -/
def chains (g : Grammar) : List (Form × String) :=
  NameSupply.assign ⟨g.nonterminals, 0⟩ g.remainders

/-- Shortens a right-hand side to at most two symbols. -/
def shortened (g : Grammar) (chains : List (Form × String)) : Form → Form
  | [] => []
  | [s] => [s]
  | [s, t] => [g.lifted s, g.lifted t]
  | s :: rest =>
    match chains.lookup rest with
    | some name => [g.lifted s, .nonterminal name]
    -- the remainders of productions all have chain nonterminals
    | none => (s :: rest).map g.lifted

/-- Makes **right-hand sides of at most two symbols**, and of two only if both are nonterminals. -/
def binarized (g : Grammar) : Grammar :=
  -- names are given out once, before any right-hand side is shortened
  let chains := g.chains
  let kept := g.productions.image fun p => ⟨p.lhs, g.shortened chains p.rhs⟩
  let proxies := g.proxied.image fun c => ⟨g.proxyName c, [.terminal c]⟩
  let links := SortedSet.ofList (chains.map fun chain => ⟨chain.2, g.shortened chains chain.1⟩)
  { g with
    nonterminals :=
      g.proxied.image g.proxyName ∪ (SortedSet.ofList (chains.map (·.2)) ∪ g.nonterminals)
    productions := proxies ∪ (links ∪ kept) }

end Grammar

end FormalLanguages
