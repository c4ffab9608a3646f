import FormalLanguages.Grammar.Production

/-! # Context-free grammars

A `Grammar` declares nonterminals and terminals, names one nonterminal as the start, and has a
finite set of productions. All collections are sorted sets, so grammars with the same declarations
and productions are equal, and a nonterminal without alternatives leaves no trace in the rules. -/

namespace FormalLanguages

/-- A **context-free grammar**. -/
structure Grammar where
  /-- The nonterminal that derivations begin with. -/
  start : String
  /-- The declared nonterminals. -/
  nonterminals : SortedSet String
  /-- The declared terminals. -/
  terminals : SortedSet Char
  /-- The productions. -/
  productions : SortedSet Production
  deriving DecidableEq

namespace Grammar

/-- The right-hand sides into which a nonterminal may be rewritten. -/
def alternatives (g : Grammar) (lhs : String) : SortedSet Form :=
  g.productions.filterMap fun p => if p.lhs = lhs then some p.rhs else none

@[simp] theorem mem_alternatives {g : Grammar} {lhs : String} {rhs : Form} :
    rhs ∈ g.alternatives lhs ↔ ⟨lhs, rhs⟩ ∈ g.productions := by
  simp only [alternatives, SortedSet.mem_filterMap, Option.ite_none_right_eq_some,
    Option.some.injEq]
  constructor
  · rintro ⟨p, hp, rfl, rfl⟩; exact hp
  · intro h; exact ⟨_, h, rfl, rfl⟩

/-- The nonterminals that have alternatives. -/
def leftSides (g : Grammar) : SortedSet String := g.productions.image (·.lhs)

@[simp] theorem mem_leftSides {g : Grammar} {lhs : String} :
    lhs ∈ g.leftSides ↔ ∃ rhs, ⟨lhs, rhs⟩ ∈ g.productions := by
  simp only [leftSides, SortedSet.mem_image]
  constructor
  · rintro ⟨p, hp, rfl⟩; exact ⟨p.rhs, hp⟩
  · rintro ⟨rhs, h⟩; exact ⟨_, h, rfl⟩

/-- The rules: each nonterminal that has alternatives, with all of them. -/
def rules (g : Grammar) : List (String × SortedSet Form) :=
  g.leftSides.toList.map fun lhs => (lhs, g.alternatives lhs)

/-- The rules list the productions in their order. -/
theorem flatMap_rules (g : Grammar) :
    (g.rules.flatMap fun rule => rule.2.toList.map (Production.mk rule.1)) =
      g.productions.toList := by
  refine SortedSet.toList_injective_of_mem ?_ g.productions.ascending fun p => ?_
  · refine List.pairwise_flatMap.2 ⟨fun rule _ => ?_, ?_⟩
    · refine List.pairwise_map.2 (rule.2.ascending.imp fun lt => ?_)
      rw [Production.compare_def, Std.ReflOrd.compare_self, lt, Ordering.eq_then]
    · refine List.pairwise_map.2 (g.leftSides.ascending.imp fun lt p hp q hq => ?_)
      obtain ⟨left, _, rfl⟩ := List.mem_map.1 hp
      obtain ⟨right, _, rfl⟩ := List.mem_map.1 hq
      rw [Production.compare_def, lt, Ordering.lt_then]
  · simp only [rules, List.mem_flatMap, List.mem_map, SortedSet.mem_toList, mem_leftSides]
    constructor
    · rintro ⟨_, ⟨lhs, _, rfl⟩, rhs, listed, rfl⟩
      exact mem_alternatives.1 listed
    · intro mem
      exact ⟨_, ⟨p.lhs, ⟨p.rhs, mem⟩, rfl⟩, p.rhs, mem_alternatives.2 mem, rfl⟩

/-- Whether the grammar has any production. -/
def hasRules (g : Grammar) : Bool := !g.productions.isEmpty

/-- Whether a name occurs on some right-hand side. -/
def occursOnRight (g : Grammar) (name : String) : Bool :=
  g.productions.toList.any fun p => p.rhs.contains (.nonterminal name)

@[simp] theorem occursOnRight_iff {g : Grammar} {name : String} :
    g.occursOnRight name = true ↔ ∃ p, p ∈ g.productions ∧ Symbol.nonterminal name ∈ p.rhs := by
  simp [occursOnRight, SortedSet.mem_toList]

/-- A symbol is **declared** when it is among the nonterminals or the terminals of its kind. -/
def Declares (g : Grammar) : Symbol → Prop
  | .terminal c => c ∈ g.terminals
  | .nonterminal n => n ∈ g.nonterminals

@[simp] theorem declares_terminal {g : Grammar} {c : Char} :
    g.Declares (.terminal c) ↔ c ∈ g.terminals := Iff.rfl

@[simp] theorem declares_nonterminal {g : Grammar} {n : String} :
    g.Declares (.nonterminal n) ↔ n ∈ g.nonterminals := Iff.rfl

instance (g : Grammar) (s : Symbol) : Decidable (g.Declares s) :=
  match s with
  | .terminal c => inferInstanceAs (Decidable (c ∈ g.terminals))
  | .nonterminal n => inferInstanceAs (Decidable (n ∈ g.nonterminals))

/-- A grammar is **well formed** when it declares its start and every symbol of its productions. -/
structure WellFormed (g : Grammar) : Prop where
  /-- The start is a declared nonterminal. -/
  start_mem : g.start ∈ g.nonterminals
  /-- Only declared nonterminals are rewritten. -/
  lhs_mem : ∀ p, p ∈ g.productions → p.lhs ∈ g.nonterminals
  /-- Right-hand sides hold declared symbols only. -/
  declares : ∀ p, p ∈ g.productions → ∀ s ∈ p.rhs, g.Declares s

theorem wellFormed_iff {g : Grammar} : g.WellFormed ↔
    g.start ∈ g.nonterminals ∧ (∀ p, p ∈ g.productions → p.lhs ∈ g.nonterminals) ∧
      ∀ p, p ∈ g.productions → ∀ s ∈ p.rhs, g.Declares s :=
  ⟨fun h => ⟨h.1, h.2, h.3⟩, fun h => ⟨h.1, h.2.1, h.2.2⟩⟩

instance (g : Grammar) : Decidable g.WellFormed := decidable_of_iff _ wellFormed_iff.symm

/-- The **written form** of a grammar: its declarations, its rules and its start. -/
def text (g : Grammar) : String :=
  let listed (items : List String) := "\x7b" ++ String.intercalate ", " items ++ "\x7d\n"
  let rule (r : String × SortedSet Form) :=
    "    " ++ (Symbol.nonterminal r.1).text ++ " -> " ++ Form.textOfAlternatives r.2.toList ++ "\n"
  "V_N = " ++ listed g.nonterminals.toList ++
  "V_T = " ++ listed (g.terminals.toList.map Char.toString) ++
  "P = \x7b\n" ++ String.join (g.rules.map rule) ++ "\x7d\n" ++
  "S = " ++ g.start

end Grammar

end FormalLanguages
