import FormalLanguages.Grammar.Basic

/-! # Phrase-structure grammars

A phrase-structure grammar replaces any sequence of symbols. Nothing is checked when a rule is
added, and a left-hand side is remembered even if it is given no alternatives. -/

namespace FormalLanguages

/-- A production of a phrase-structure grammar: `lhs` may be rewritten into `rhs`. -/
structure Rewriting where
  /-- The symbols that are rewritten. -/
  lhs : Form
  /-- What they are rewritten into. -/
  rhs : Form
  deriving DecidableEq

namespace Rewriting

instance : Ord Rewriting := ⟨compareLex (compareOn lhs) (compareOn rhs)⟩

instance : Std.TransOrd Rewriting :=
  transCmp_compareLex (transCmp_compareOn lhs) (transCmp_compareOn rhs)

instance : Std.LawfulEqOrd Rewriting :=
  lawfulEqCmp_compareLex (transCmp_compareOn lhs) (transCmp_compareOn rhs) fun x y hl hr => by
    have left := eq_of_compareOn hl
    have right := eq_of_compareOn hr
    cases x; cases y; cases left; cases right; rfl

end Rewriting

/-- A **phrase-structure grammar**. -/
structure PhraseGrammar where
  /-- The nonterminal that derivations begin with. -/
  start : String
  /-- The declared nonterminals. -/
  nonterminals : SortedSet String
  /-- The declared terminals. -/
  terminals : SortedSet Char
  /-- The left-hand sides of rules, also of rules without alternatives. -/
  heads : SortedSet Form := ∅
  /-- The productions. -/
  productions : SortedSet Rewriting := ∅
  deriving DecidableEq

namespace PhraseGrammar

/-- Adds alternatives to a left-hand side. -/
def addRule (g : PhraseGrammar) (lhs : Form) (alternatives : List Form) : PhraseGrammar :=
  { g with
    heads := g.heads.insert lhs
    productions := SortedSet.ofList (alternatives.map (⟨lhs, ·⟩)) ∪ g.productions }

/-- The alternatives of a left-hand side. -/
def alternatives (g : PhraseGrammar) (lhs : Form) : SortedSet Form :=
  g.productions.filterMap fun r => if r.lhs = lhs then some r.rhs else none

@[simp] theorem mem_alternatives {g : PhraseGrammar} {lhs rhs : Form} :
    rhs ∈ g.alternatives lhs ↔ ⟨lhs, rhs⟩ ∈ g.productions := by
  simp only [alternatives, SortedSet.mem_filterMap, Option.ite_none_right_eq_some,
    Option.some.injEq]
  constructor
  · rintro ⟨r, hr, rfl, rfl⟩; exact hr
  · intro h; exact ⟨_, h, rfl, rfl⟩

/-- All left-hand sides. -/
def leftSides (g : PhraseGrammar) : SortedSet Form := g.heads ∪ g.productions.image (·.lhs)

/-- The rules: each left-hand side with all its alternatives. -/
def rules (g : PhraseGrammar) : List (Form × SortedSet Form) :=
  g.leftSides.toList.map fun lhs => (lhs, g.alternatives lhs)

/-- A symbol is **declared** when it is among the nonterminals or the terminals of its kind. -/
def Declares (g : PhraseGrammar) : Symbol → Prop
  | .terminal c => c ∈ g.terminals
  | .nonterminal n => n ∈ g.nonterminals

@[simp] theorem declares_terminal {g : PhraseGrammar} {c : Char} :
    g.Declares (.terminal c) ↔ c ∈ g.terminals := Iff.rfl

@[simp] theorem declares_nonterminal {g : PhraseGrammar} {n : String} :
    g.Declares (.nonterminal n) ↔ n ∈ g.nonterminals := Iff.rfl

instance (g : PhraseGrammar) (s : Symbol) : Decidable (g.Declares s) :=
  match s with
  | .terminal c => inferInstanceAs (Decidable (c ∈ g.terminals))
  | .nonterminal n => inferInstanceAs (Decidable (n ∈ g.nonterminals))

/-- Whether the start occurs on some right-hand side. -/
def startOccursOnRight (g : PhraseGrammar) : Bool :=
  g.productions.toList.any fun r => r.rhs.contains (.nonterminal g.start)

end PhraseGrammar

/-- A context-free grammar as a phrase-structure grammar. -/
def Grammar.toPhraseGrammar (g : Grammar) : PhraseGrammar where
  start := g.start
  nonterminals := g.nonterminals
  terminals := g.terminals
  heads := g.leftSides.image fun lhs => [.nonterminal lhs]
  productions := g.productions.image fun p => ⟨[.nonterminal p.lhs], p.rhs⟩

end FormalLanguages
