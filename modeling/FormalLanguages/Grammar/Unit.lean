import FormalLanguages.Grammar.Basic
import FormalLanguages.Inference

/-! # Productions that only rename

The right-hand side of a unit production is a single nonterminal. `Grammar.withoutUnits` gives
every nonterminal the other productions of all it can be renamed to, and drops the renaming. -/

namespace FormalLanguages

/-- The nonterminal that a form consists of. -/
def Form.unit? : Form → Option String
  | [.nonterminal n] => some n
  | _ => none

@[simp] theorem Form.unit?_eq_some {form : Form} {n : String} :
    Form.unit? form = some n ↔ form = [.nonterminal n] := by
  unfold Form.unit?
  split
  · simp
  · rename_i h
    simp only [reduceCtorEq, false_iff]
    exact fun e => h n e

namespace Grammar

/-- From a nonterminal one unit production leads to another. -/
def renamingClauses (g : Grammar) : List (Clause String) :=
  g.productions.toList.filterMap fun p => (Form.unit? p.rhs).map fun n => ⟨n, [p.lhs]⟩

/-- The nonterminals that `name` can be renamed to by unit productions, itself included. -/
def renamings (g : Grammar) (name : String) : SortedSet String :=
  consequences (⟨name, []⟩ :: g.renamingClauses)

/-- The unit closure of every declared nonterminal. -/
def allRenamings (g : Grammar) : List (String × SortedSet String) :=
  g.nonterminals.toList.map fun name => (name, g.renamings name)

/-- Whether a nonterminal may take over a right-hand side: it is no unit, and only the start takes
over the empty one. -/
def takesOver (g : Grammar) (name : String) (rhs : Form) : Bool :=
  (Form.unit? rhs).isNone && (!rhs.isEmpty || name == g.start)

/-- Replaces the **unit productions** of each nonterminal by the other productions of its unit
closure. -/
def withoutUnits (g : Grammar) : Grammar :=
  { g with
    -- a nonterminal reaches itself, so its own productions are kept
    productions := g.nonterminals.bind fun name =>
      (g.renamings name).toList.flatMap fun reached =>
        ((g.alternatives reached).toList.filter (g.takesOver name)).map (⟨name, ·⟩) }

end Grammar

end FormalLanguages
