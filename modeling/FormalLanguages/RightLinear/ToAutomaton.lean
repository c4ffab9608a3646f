import FormalLanguages.Automaton.Basic
import FormalLanguages.Grammar.Basic
import FormalLanguages.Naming

/-! # The automaton of a right-linear grammar

In a right-linear grammar a right-hand side is empty, a letter, or a letter and a nonterminal. Its
automaton has a state for each nonterminal and one more accepting state, to which productions with
only a letter lead. -/

namespace FormalLanguages

/-- Whether a form is empty, a letter, or a letter followed by a nonterminal. -/
def Form.isRightLinear : Form → Bool
  | [] => true
  | [.terminal _] => true
  | [.terminal _, .nonterminal _] => true
  | _ => false

namespace Grammar

/-- What can stand in the way of building the automaton. -/
inductive LinearityFault where
  /-- A right-hand side is not right-linear. -/
  | notRightLinear
  deriving DecidableEq

/-- The message of a fault. -/
def LinearityFault.message : LinearityFault → String
  | notRightLinear => "Alternative is not a terminal optionally followed by one nonterminal"

instance : ToString LinearityFault := ⟨LinearityFault.message⟩

/-- One diagnostic for each production that is not right-linear, in the order of rules. -/
def linearityFaults (g : Grammar) : List (Diagnostic LinearityFault) :=
  (g.productions.toList.filter fun p => !Form.isRightLinear p.rhs).map fun p =>
    ⟨.production p, .notRightLinear⟩

/-- The additional accepting state. -/
def finalState (g : Grammar) : State := .atom (freshPrimed g.nonterminals "qF")

/-- The transition that a right-linear production stands for; the empty ones stand for none. -/
def transition? (g : Grammar) (p : Production) : Option Transition :=
  match p.rhs with
  -- after this letter nothing more is derived
  | [.terminal c] => some ⟨.atom p.lhs, c, g.finalState⟩
  | [.terminal c, .nonterminal n] => some ⟨.atom p.lhs, c, .atom n⟩
  | _ => none

/-- The automaton of the right-linear productions of a grammar. -/
def linearAutomaton (g : Grammar) : Automaton where
  start := .atom g.start
  states := (g.nonterminals.image .atom).insert g.finalState
  alphabet := g.terminals
  transitions := g.productions.filterMap g.transition?
  accepting := (g.productions.filterMap fun p =>
    if p.rhs = [] then some (.atom p.lhs) else none).insert g.finalState

/-- The **automaton of a right-linear grammar**; for any other grammar all productions that are
not right-linear are reported. -/
def toAutomaton (g : Grammar) : Except (List (Diagnostic LinearityFault)) Automaton :=
  match g.linearityFaults with
  | [] => .ok g.linearAutomaton
  | faults => .error faults

end Grammar

end FormalLanguages
