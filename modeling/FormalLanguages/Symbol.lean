import FormalLanguages.Lexicographic
import FormalLanguages.SortedSet

/-! # Grammar symbols and sentential forms

A grammar speaks of *terminals*, which are letters, and *nonterminals*, which are names. A finite
sequence of symbols is a `Form`: the right-hand side of a rule, or a stage of a derivation. Forms
are ordered and written out here; `Literal` reads the written form back. -/

namespace FormalLanguages

/-- The base unit of a rule: a letter that stays, or a name that is rewritten. -/
inductive Symbol where
  /-- A letter of the alphabet. -/
  | terminal (letter : Char)
  /-- A name that rules expand. -/
  | nonterminal (name : String)
  deriving DecidableEq

/-- A **sentential form**: a sequence of symbols, empty for the empty word. -/
abbrev Form := List Symbol

namespace Symbol

/-- Whether a symbol is a letter. -/
def isTerminal : Symbol → Bool
  | terminal _ => true
  | nonterminal _ => false

@[simp] theorem isTerminal_terminal (c : Char) : (terminal c).isTerminal = true := rfl

@[simp] theorem isTerminal_nonterminal (n : String) : (nonterminal n).isTerminal = false := rfl

/-- The name of a nonterminal. -/
def name? : Symbol → Option String
  | terminal _ => none
  | nonterminal n => some n

@[simp] theorem name?_terminal (c : Char) : (terminal c).name? = none := rfl

@[simp] theorem name?_nonterminal (n : String) : (nonterminal n).name? = some n := rfl

@[simp] theorem name?_eq_some {s : Symbol} {n : String} : s.name? = some n ↔ s = nonterminal n := by
  cases s <;> simp [name?]

/-- The letter of a terminal. -/
def letter? : Symbol → Option Char
  | terminal c => some c
  | nonterminal _ => none

@[simp] theorem letter?_terminal (c : Char) : (terminal c).letter? = some c := rfl

@[simp] theorem letter?_nonterminal (n : String) : (nonterminal n).letter? = none := rfl

@[simp] theorem letter?_eq_some {s : Symbol} {c : Char} : s.letter? = some c ↔ s = terminal c := by
  cases s <;> simp [letter?]

/-- Terminals come before nonterminals; among themselves letters and names keep their order. -/
instance : Ord Symbol where
  compare
    | terminal a, terminal b => compare a b
    | terminal _, nonterminal _ => .lt
    | nonterminal _, terminal _ => .gt
    | nonterminal m, nonterminal n => compare m n

@[simp] theorem compare_terminal (a b : Char) :
    compare (terminal a) (terminal b) = compare a b := rfl

@[simp] theorem compare_terminal_nonterminal (a : Char) (n : String) :
    compare (terminal a) (nonterminal n) = .lt := rfl

@[simp] theorem compare_nonterminal_terminal (m : String) (b : Char) :
    compare (nonterminal m) (terminal b) = .gt := rfl

@[simp] theorem compare_nonterminal (m n : String) :
    compare (nonterminal m) (nonterminal n) = compare m n := rfl

instance : Std.TransOrd Symbol where
  eq_swap {a b} := by
    cases a <;> cases b <;> simp [← Std.OrientedOrd.eq_swap]
  isLE_trans {a b c} := by
    cases a <;> cases b <;> cases c <;> simp <;> exact Std.TransOrd.isLE_trans

instance : Std.LawfulEqOrd Symbol where
  compare_self {a} := by cases a <;> simp
  eq_of_compare {a b} := by cases a <;> cases b <;> simp

/-- The **written form** of a symbol: a letter or a one-character name stands for itself, any other
name is put between angle brackets. -/
def text : Symbol → String
  | terminal c => c.toString
  | nonterminal n => if n.length = 1 then n else "<" ++ n ++ ">"

end Symbol

namespace Form

/-- The names that occur in a form, from left to right. -/
def names (form : Form) : List String := form.filterMap Symbol.name?

@[simp] theorem mem_names {form : Form} {n : String} :
    n ∈ names form ↔ Symbol.nonterminal n ∈ form := by
  simp [names]

/-- The letters that occur in a form, from left to right. -/
def letters (form : Form) : List Char := form.filterMap Symbol.letter?

@[simp] theorem mem_letters {form : Form} {c : Char} :
    c ∈ letters form ↔ Symbol.terminal c ∈ form := by
  simp [letters]

/-- The form that spells a word. -/
def ofWord (word : List Char) : Form := word.map Symbol.terminal

@[simp] theorem ofWord_nil : ofWord [] = [] := rfl

@[simp] theorem ofWord_cons (c : Char) (w : List Char) :
    ofWord (c :: w) = Symbol.terminal c :: ofWord w := rfl

@[simp] theorem ofWord_append (v w : List Char) : ofWord (v ++ w) = ofWord v ++ ofWord w := by
  simp [ofWord]

/-- The **written form** of a sequence of symbols, where `ε` stands for the empty sequence. -/
def text (form : Form) : String :=
  if form.isEmpty then "ε" else String.join (form.map Symbol.text)

@[simp] theorem text_nil : text [] = "ε" := rfl

end Form

end FormalLanguages
