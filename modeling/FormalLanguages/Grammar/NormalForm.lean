import FormalLanguages.Grammar.Binary
import FormalLanguages.Grammar.FreshStart
import FormalLanguages.Grammar.Nullable
import FormalLanguages.Grammar.Unit
import FormalLanguages.Grammar.Useful

/-! # Chomsky normal form

In normal form every right-hand side is a single letter or two nonterminals; only a start that
occurs on no right-hand side may also be rewritten into the empty word. `Grammar.normalForm` brings
any grammar into this form. -/

namespace FormalLanguages.Grammar

/-- A production **conforms** to the normal form. -/
def Conforms (g : Grammar) (p : Production) : Prop :=
  match p.rhs with
  | [] => p.lhs = g.start ∧ g.occursOnRight g.start = false
  | [.terminal _] => True
  | [.nonterminal _, .nonterminal _] => True
  | _ => False

instance (g : Grammar) (p : Production) : Decidable (g.Conforms p) := by
  unfold Conforms
  split <;> infer_instance

/-- A grammar is in **normal form** when all its productions conform. -/
def IsNormal (g : Grammar) : Prop := ∀ p, p ∈ g.productions → g.Conforms p

instance (g : Grammar) : Decidable g.IsNormal :=
  inferInstanceAs (Decidable (∀ p, p ∈ g.productions → g.Conforms p))

/-- The first production, in the order of rules, that does not conform. -/
def firstNonconforming (g : Grammar) : Option Production :=
  g.productions.toList.find? fun p => !decide (g.Conforms p)

/-- A grammar is in normal form just when no production violates it. -/
theorem firstNonconforming_eq_none_iff {g : Grammar} :
    g.firstNonconforming = none ↔ g.IsNormal := by
  simp [firstNonconforming, IsNormal, SortedSet.mem_toList]

/-- Brings a grammar into **normal form**. What is no longer reached after the unproductive part is
gone is dropped as well, so a grammar without words ends up without productions. -/
def normalForm (g : Grammar) : Grammar :=
  g.withFreshStart.withoutErasing.withoutUnits
    -- dropping what derives no word can cut off what was reached through it
    |>.reachablePart.productivePart.reachablePart
    |>.binarized

end FormalLanguages.Grammar
