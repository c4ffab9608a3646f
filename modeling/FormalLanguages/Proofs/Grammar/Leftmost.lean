import FormalLanguages.Proofs.Grammar.Yield
import Mathlib.Data.List.Chain

/-! # Leftmost derivations

Steps at the leftmost nonterminal are enough: a form that yields a word derives it by leftmost steps
(`Grammar.Yields.exists_leftmostDerives`). The forms on the way make up a `Grammar.Trace`, and a trace
has one form more than there are steps. -/

namespace FormalLanguages.Grammar

variable {g : Grammar} {m n : Nat} {u v w : Form} {forms : List Form} {word : List Char}

/-- **Leftmost derivability**: exactly `n` leftmost steps lead from one form to another. -/
inductive LeftmostDerives (g : Grammar) : Nat → Form → Form → Prop
  /-- No step leads anywhere else. -/
  | refl (u : Form) : LeftmostDerives g 0 u u
  /-- A leftmost step comes before the others. -/
  | step {n : Nat} {u v w : Form} (first : g.LeftmostStep u v) (rest : LeftmostDerives g n v w) :
      LeftmostDerives g (n + 1) u w

/-- What is derived by leftmost steps is derived. -/
theorem LeftmostDerives.derives {n : Nat} {u v : Form} (h : g.LeftmostDerives n u v) :
    g.Derives u v := by
  induction h with
  | refl u => exact .refl u
  | step first _ ih => exact .step first.toStep ih

/-- Leftmost steps can follow one another. -/
theorem LeftmostDerives.trans (first : g.LeftmostDerives m u v) (second : g.LeftmostDerives n v w) :
    g.LeftmostDerives (n + m) u w := by
  induction first with
  | refl _ => exact second
  | step step _ ih => exact .step step (ih second)

/-- A leftmost step stays leftmost with letters before it and any symbols after it. -/
theorem LeftmostStep.append (h : g.LeftmostStep u v) (letters : List Char) (after : Form) :
    g.LeftmostStep (Form.ofWord letters ++ u ++ after) (Form.ofWord letters ++ v ++ after) := by
  obtain ⟨before, rest, p, mem⟩ := h
  have wider := LeftmostStep.expand (letters ++ before) (rest ++ after) p mem
  simpa using wider

/-- Leftmost steps stay leftmost with letters before them and any symbols after them. -/
theorem LeftmostDerives.append (h : g.LeftmostDerives n u v) (letters : List Char) (after : Form) :
    g.LeftmostDerives n (Form.ofWord letters ++ u ++ after) (Form.ofWord letters ++ v ++ after) := by
  induction h with
  | refl _ => exact .refl _
  | step first _ ih => exact .step (first.append letters after) ih

/-- **Every derivation has a leftmost one**: what a form yields is derived by leftmost steps. -/
theorem Yields.exists_leftmostDerives (h : g.Yields u word) :
    ∃ n, g.LeftmostDerives n u (Form.ofWord word) := by
  induction h with
  | nil => exact ⟨0, .refl _⟩
  | @letter c rest word _ ih =>
    obtain ⟨n, steps⟩ := ih
    have longer := steps.append [c] []
    exact ⟨n, by simpa using longer⟩
  | @expand name rhs rest first second mem _ _ ihHead ihTail =>
    obtain ⟨m, head⟩ := ihHead
    obtain ⟨n, tail⟩ := ihTail
    have expanded : g.LeftmostStep (.nonterminal name :: rest) (rhs ++ rest) := by
      simpa using LeftmostStep.expand [] rest ⟨name, rhs⟩ mem
    -- the symbols after the nonterminal wait until it has become its letters
    have headFirst : g.LeftmostDerives m (rhs ++ rest) (Form.ofWord first ++ rest) := by
      simpa using head.append [] rest
    have tailNext : g.LeftmostDerives n (Form.ofWord first ++ rest)
        (Form.ofWord (first ++ second)) := by
      simpa using tail.append first []
    exact ⟨n + m + 1, .step expanded (headFirst.trans tailNext)⟩

/-! ## Traces -/

/-- The forms of a **leftmost derivation** of a word. -/
structure Trace (g : Grammar) (u : Form) (forms : List Form) (word : List Char) : Prop where
  /-- The first form is the one to derive from. -/
  head : forms.head? = some u
  /-- Each form is followed by the result of a leftmost step. -/
  steps : forms.IsChain g.LeftmostStep
  /-- The last form spells the word. -/
  last : forms.getLast? = some (Form.ofWord word)

/-- A word is derived from itself. -/
theorem Trace.ofWord (g : Grammar) (word : List Char) :
    g.Trace (Form.ofWord word) [Form.ofWord word] word :=
  ⟨rfl, .singleton _, rfl⟩

/-- A trace begins with its first form. -/
theorem Trace.eq_cons (trace : g.Trace u forms word) : ∃ rest, forms = u :: rest := by
  cases forms with
  | nil => cases trace.head
  | cons form rest =>
    cases trace.head
    exact ⟨rest, rfl⟩

/-- A trace is one form that spells the word, or goes on after a leftmost step. -/
theorem trace_cons_iff :
    g.Trace u (u :: forms) word ↔
      (u = Form.ofWord word ∧ forms = []) ∨ ∃ v, g.LeftmostStep u v ∧ g.Trace v forms word := by
  constructor
  · rintro ⟨_, steps, last⟩
    cases forms with
    | nil => exact .inl ⟨Option.some.inj last, rfl⟩
    | cons v rest =>
      rw [List.isChain_cons_cons] at steps
      rw [List.getLast?_cons_cons] at last
      exact .inr ⟨v, steps.1, rfl, steps.2, last⟩
  · rintro (⟨rfl, rfl⟩ | ⟨v, first, trace⟩)
    · exact .ofWord g word
    · obtain ⟨rest, rfl⟩ := trace.eq_cons
      refine ⟨rfl, List.isChain_cons_cons.2 ⟨first, trace.steps⟩, ?_⟩
      rw [List.getLast?_cons_cons]
      exact trace.last

/-- A leftmost step comes before a trace. -/
theorem Trace.cons (first : g.LeftmostStep u v) (trace : g.Trace v forms word) :
    g.Trace u (u :: forms) word :=
  trace_cons_iff.2 (.inr ⟨v, first, trace⟩)

/-- The steps of a trace can be counted. -/
theorem Trace.leftmostDerives (trace : g.Trace u forms word) :
    g.LeftmostDerives (forms.length - 1) u (Form.ofWord word) := by
  induction forms generalizing u with
  | nil => cases trace.head
  | cons form rest ih =>
    cases trace.head
    rcases trace_cons_iff.1 trace with ⟨rfl, rfl⟩ | ⟨v, first, trace⟩
    · exact .refl _
    · obtain ⟨others, rfl⟩ := trace.eq_cons
      exact .step first (ih trace)

/-- The forms on the way of leftmost steps to a word are a trace. -/
theorem LeftmostDerives.exists_trace (h : g.LeftmostDerives n u (Form.ofWord word)) :
    ∃ forms, g.Trace u forms word := by
  generalize spelled : Form.ofWord word = target at h
  induction h with
  | refl u =>
    subst spelled
    exact ⟨_, Trace.ofWord g word⟩
  | step first _ ih =>
    obtain ⟨forms, trace⟩ := ih spelled
    exact ⟨_, .cons first trace⟩

/-- **A nonterminal generates the words that have a trace.** -/
theorem generates_iff_exists_trace {name : String} :
    g.Generates name word ↔ ∃ forms, g.Trace [.nonterminal name] forms word := by
  constructor
  · intro generated
    obtain ⟨n, steps⟩ := (generates_iff.1 generated).exists_leftmostDerives
    exact steps.exists_trace
  · rintro ⟨forms, trace⟩
    exact trace.leftmostDerives.derives

end FormalLanguages.Grammar
