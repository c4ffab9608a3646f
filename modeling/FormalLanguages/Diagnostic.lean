import FormalLanguages.Automaton.State
import FormalLanguages.Grammar.Production

/-! # Diagnostics

What a definition, a conversion or a derivation can run into is reported as a `Diagnostic`: the
place that was being looked at and the fault found there. The kinds of fault belong to the modules
that find them; how a diagnostic is written out is decided here once. -/

namespace FormalLanguages

/-- The **place** where a fault was found. -/
inductive Place where
  /-- The definition as a whole. -/
  | definition
  /-- A rule whose right-hand side is still the text that was given. -/
  | literal (lhs text : String)
  /-- A production. -/
  | production (p : Production)
  /-- A rule that replaces a sequence of symbols, with all its alternatives. -/
  | rewriting (lhs : Form) (alternatives : List Form)
  /-- The transitions of a state on one letter. -/
  | transition (source : State) (letter : Char)
  /-- A form that a derivation had reached. -/
  | derivation (form : Form)
  deriving DecidableEq

/-- The written form of the transitions of a state on one letter. -/
def State.transitionText (source : State) (letter : Char) : String :=
  "δ(" ++ source.text ++ ", " ++ letter.toString ++ ")"

/-- The **written form** of a place. -/
def Place.text : Place → String
  | definition => "definition"
  | literal lhs text => lhs ++ " -> " ++ text
  | production p => p.text
  | rewriting lhs alternatives => lhs.text ++ " -> " ++ Form.textOfAlternatives alternatives
  | transition source letter => source.transitionText letter
  | derivation form => "derivation at " ++ form.text

/-- A **diagnostic**: a fault and the place where it was found. -/
structure Diagnostic (Fault : Type) where
  /-- Where the fault was found. -/
  place : Place
  /-- What is wrong. -/
  fault : Fault
  deriving DecidableEq

/-- The **written form** of a diagnostic for a terminal: the place in bold red between brackets,
then the message of the fault in bold. -/
def Diagnostic.text {Fault : Type} [ToString Fault] (d : Diagnostic Fault) : String :=
  "\x1b[31;49;1m[" ++ d.place.text ++ "]\x1b[39;49;1m  " ++ toString d.fault ++ "\x1b[0m"

end FormalLanguages
