import FormalLanguages.Grammar.Basic

/-! # The language of a grammar

A step replaces one occurrence of a nonterminal, and a form derives what finitely many steps lead
to. A nonterminal generates the words that it derives; the language of a grammar is what its start
generates. Leftmost steps replace the first nonterminal of a form. -/

namespace FormalLanguages.Grammar

/-- **One step**: an occurrence of a nonterminal is replaced by one of its alternatives. -/
inductive Step (g : Grammar) : Form → Form → Prop
  /-- The production `p` is used between `before` and `after`. -/
  | expand (before after : Form) (p : Production) (mem : p ∈ g.productions) :
      Step g (before ++ .nonterminal p.lhs :: after) (before ++ p.rhs ++ after)

/-- **Derivability**: finitely many steps lead from one form to another. -/
inductive Derives (g : Grammar) : Form → Form → Prop
  /-- Every form derives itself. -/
  | refl (u : Form) : Derives g u u
  /-- What is derived after a step is derived. -/
  | step {u v w : Form} (first : g.Step u v) (rest : Derives g v w) : Derives g u w

/-- A nonterminal **generates** a word when it derives the form that spells the word. -/
def Generates (g : Grammar) (name : String) (word : List Char) : Prop :=
  g.Derives [.nonterminal name] (Form.ofWord word)

/-- The **language** of a grammar: the words that its start generates. -/
def Language (g : Grammar) (word : List Char) : Prop := g.Generates g.start word

/-- **One leftmost step**: only letters stand before the nonterminal that is replaced. -/
inductive LeftmostStep (g : Grammar) : Form → Form → Prop
  /-- The production `p` is used between the letters `before` and `after`. -/
  | expand (before : List Char) (after : Form) (p : Production) (mem : p ∈ g.productions) :
      LeftmostStep g (Form.ofWord before ++ .nonterminal p.lhs :: after)
        (Form.ofWord before ++ p.rhs ++ after)

theorem Derives.single {g : Grammar} {u v : Form} (h : g.Step u v) : g.Derives u v :=
  .step h (.refl v)

theorem Derives.trans {g : Grammar} {u v w : Form} (huv : g.Derives u v) (hvw : g.Derives v w) :
    g.Derives u w := by
  induction huv with
  | refl _ => exact hvw
  | step first _ ih => exact .step first (ih hvw)

/-- A production is a step from its left-hand side alone. -/
theorem Step.of_mem {g : Grammar} {name : String} {rhs : Form}
    (h : ⟨name, rhs⟩ ∈ g.productions) : g.Step [.nonterminal name] rhs := by
  simpa using Step.expand [] [] ⟨name, rhs⟩ h

/-- A step stays possible inside a longer form. -/
theorem Step.append {g : Grammar} {u v : Form} (h : g.Step u v) (x y : Form) :
    g.Step (x ++ u ++ y) (x ++ v ++ y) := by
  obtain ⟨before, after, p, mem⟩ := h
  have := Step.expand (x ++ before) (after ++ y) p mem
  simpa using this

/-- A derivation stays possible inside a longer form. -/
theorem Derives.append {g : Grammar} {u v : Form} (h : g.Derives u v) (x y : Form) :
    g.Derives (x ++ u ++ y) (x ++ v ++ y) := by
  induction h with
  | refl _ => exact .refl _
  | step first _ ih => exact .step (first.append x y) ih

/-- A leftmost step is a step. -/
theorem LeftmostStep.toStep {g : Grammar} {u v : Form} (h : g.LeftmostStep u v) : g.Step u v := by
  obtain ⟨before, after, p, mem⟩ := h
  exact .expand _ _ p mem

end FormalLanguages.Grammar
