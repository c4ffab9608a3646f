import FormalLanguages.Diagnostic
import FormalLanguages.Grammar.NormalForm

/-! # Membership by a chart

For a grammar in normal form, a chart tells which nonterminals derive which stretches of a word. Its
rows are filled by length: a nonterminal derives a longer stretch when one of its pairs derives the
two parts of some split. A word belongs to the language when the start derives all of it. -/

namespace FormalLanguages

/-- A **chart**: row `n` holds, for each position, the nonterminals that derive the `n + 1` letters
from there on. -/
abbrev Chart := Array (Array (SortedSet String))

/-- The cell for the `length` letters from position `start` on, if the chart has it. -/
def Chart.cell? (chart : Chart) (length start : Nat) : Option (SortedSet String) :=
  chart[length - 1]?.bind (·[start]?)

/-- The nonterminals noted for the `length` letters from position `start` on. -/
def Chart.names (chart : Chart) (length start : Nat) : SortedSet String :=
  (chart.cell? length start).getD ∅

namespace Grammar

/-- A production whose right-hand side is a pair of nonterminals. -/
structure Pair where
  /-- The nonterminal that is rewritten. -/
  lhs : String
  /-- The first nonterminal of the right-hand side. -/
  left : String
  /-- The second nonterminal of the right-hand side. -/
  right : String

/-- The pair that a production is. -/
def pair? (p : Production) : Option Pair :=
  match p.rhs with
  | [.nonterminal left, .nonterminal right] => some ⟨p.lhs, left, right⟩
  | _ => none

/-- The productions that are pairs. -/
def pairs (g : Grammar) : List Pair := g.productions.toList.filterMap pair?

/-- The nonterminals that are rewritten into a letter. -/
def namesOfLetter (g : Grammar) (c : Char) : SortedSet String :=
  g.productions.filterMap fun p => if p.rhs = [.terminal c] then some p.lhs else none

/-- The left-hand sides of the pairs that fit two neighbouring stretches. -/
def joined (pairs : List Pair) (left right : SortedSet String) : List String :=
  pairs.filterMap fun p => if p.left ∈ left ∧ p.right ∈ right then some p.lhs else none

/-- The nonterminals that derive a stretch of two or more letters by some split. -/
def composed (pairs : List Pair) (chart : Chart) (length start : Nat) : SortedSet String :=
  SortedSet.ofList <| (List.range' 1 (length - 1)).flatMap fun cut =>
    joined pairs (chart.names cut start) (chart.names (length - cut) (start + cut))

/-- The row that comes after the rows of a chart. -/
def nextRow (g : Grammar) (word : List Char) (chart : Chart) : Array (SortedSet String) :=
  -- the first row holds single letters
  if chart.isEmpty then (word.map g.namesOfLetter).toArray
  else
    let pairs := g.pairs
    let length := chart.size + 1
    ((List.range (word.length + 1 - length)).map (composed pairs chart length)).toArray

/-- The first `rows` rows of the **chart of a word**. -/
def chart (g : Grammar) (word : List Char) : Nat → Chart
  | 0 => #[]
  | rows + 1 =>
    let earlier := g.chart word rows
    earlier.push (g.nextRow word earlier)

/-- What can stand in the way of deciding membership. -/
inductive MembershipFault where
  /-- The grammar is not in normal form. -/
  | notNormal
  deriving DecidableEq

/-- The message of a fault. -/
def MembershipFault.message : MembershipFault → String
  | notNormal => "Grammar is not in Chomsky normal form"

instance : ToString MembershipFault := ⟨MembershipFault.message⟩

/-- Whether a grammar in normal form generates a word, read off the chart of the word. -/
def generatesByChart (g : Grammar) (word : List Char) : Bool :=
  -- in normal form only the start can vanish, and only at once
  if word.isEmpty then [] ∈ g.alternatives g.start
  else g.start ∈ (g.chart word word.length).names word.length 0

/-- **Decides membership** of a word, or points at the first production that keeps the grammar from
being in normal form. -/
def decideMembership (g : Grammar) (word : List Char) : Except (Diagnostic MembershipFault) Bool :=
  match g.firstNonconforming with
  | some p => .error ⟨.production p, .notNormal⟩
  | none => .ok (g.generatesByChart word)

end Grammar

end FormalLanguages
