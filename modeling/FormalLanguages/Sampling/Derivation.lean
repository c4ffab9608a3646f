import FormalLanguages.Diagnostic
import FormalLanguages.Grammar.Basic
import FormalLanguages.Sampling.Source

/-! # Random derivations

A derivation replaces the leftmost nonterminal again and again, by an alternative that a random
source chooses, until only letters are left. A budget bounds the number of rewritings. How the source
chooses is left open (`derivationFrom`); random derivations draw from a `Source`. -/

namespace FormalLanguages

/-- The symbols before the leftmost nonterminal, its name, and the symbols after it. -/
def Form.splitLeftmost : Form → Option (Form × String × Form)
  | [] => none
  | .nonterminal n :: rest => some ([], n, rest)
  | .terminal c :: rest =>
    (splitLeftmost rest).map fun (before, name, after) => (.terminal c :: before, name, after)

/-- What can stop a derivation. -/
inductive DerivationFault where
  /-- A nonterminal was left after the allowed number of rewritings. -/
  | budgetExceeded (budget : Nat)
  /-- A nonterminal that was to be rewritten has no alternatives. -/
  | deadEnd (name : String)
  deriving DecidableEq

/-- The message of a fault. -/
def DerivationFault.message : DerivationFault → String
  | budgetExceeded budget => "Derivation did not finish within " ++ budget.repr ++ " steps"
  | deadEnd n => "No alternatives for nonterminal `" ++ n ++ "`"

instance : ToString DerivationFault := ⟨DerivationFault.message⟩

/-- A **derivation**: the forms from the first one to the word. -/
structure Derivation where
  /-- The forms in the order of the rewritings. -/
  forms : List Form
  deriving DecidableEq

namespace Derivation

/-- The form with which a derivation ends. -/
def last (d : Derivation) : Form := d.forms.getLastD []

/-- The word that a derivation spells. -/
def word (d : Derivation) : String := String.join (d.last.map Symbol.text)

/-- The **written form** of a derivation. -/
def text (d : Derivation) : String := String.intercalate " ---> " (d.forms.map Form.text)

end Derivation

namespace Grammar

open Sampling

/-- Goes on from a form with `left` rewritings to spend; `budget` is what was allowed at first. -/
def finishDerivation {σ : Type} (g : Grammar) (chooser : Chooser σ Form) (budget : Nat) :
    Nat → Form → σ → Except (Diagnostic DerivationFault) (List Form) × σ
  | left, form, source =>
    match Form.splitLeftmost form with
    | none => (.ok [form], source)
    | some (before, name, after) =>
      -- the budget is checked first, so nothing is drawn once it is spent
      match left with
      | 0 => (.error ⟨.derivation form, .budgetExceeded budget⟩, source)
      | left + 1 =>
        match chooser.choose source (g.alternatives name).toList with
        | (none, source) => (.error ⟨.derivation form, .deadEnd name⟩, source)
        | (some rhs, source) =>
          let (rest, source) :=
            g.finishDerivation chooser budget left (before ++ rhs ++ after) source
          (rest.map (form :: ·), source)

/-- **Derives** a word from a nonterminal by at most `budget` rewritings, with a source of any kind.
The source is returned in any case, since a failed derivation has drawn from it as well. -/
def derivationFrom {σ : Type} (g : Grammar) (chooser : Chooser σ Form) (name : String) (source : σ)
    (budget : Nat) : Except (Diagnostic DerivationFault) Derivation × σ :=
  let (forms, source) := g.finishDerivation chooser budget budget [.nonterminal name] source
  (forms.map .mk, source)

/-- **Derives** a word from a nonterminal by random choices. -/
def randomDerivationFrom (g : Grammar) (name : String) (source : Source) (budget : Nat) :
    Except (Diagnostic DerivationFault) Derivation × Source :=
  g.derivationFrom Source.chooser name source budget

/-- **Derives** a word of the grammar. -/
def randomDerivation (g : Grammar) (source : Source) (budget : Nat) :
    Except (Diagnostic DerivationFault) Derivation × Source :=
  g.randomDerivationFrom g.start source budget

/-- **Generates** a word of the grammar, without the derivation that leads to it. -/
def randomWord (g : Grammar) (source : Source) (budget : Nat) :
    Except (Diagnostic DerivationFault) String × Source :=
  let (derivation, source) := g.randomDerivation source budget
  (derivation.map Derivation.word, source)

end Grammar

end FormalLanguages
