import FormalLanguages.Proofs.Grammar.Leftmost
import FormalLanguages.Sampling.Derivation

/-! # What a random derivation runs into

A random derivation rewrites the leftmost nonterminal, so the forms that it goes through are reached
by leftmost steps (`Grammar.LeftmostDerives`), and it comes to one of four outcomes, however its
source chooses (`Grammar.outcome_finishDerivation`). It reports a dead end only at a form that is
stuck: one whose leftmost nonterminal has no alternatives (`Grammar.Outcome.exists_stuck`). -/

namespace FormalLanguages

section Results

variable {ε α β : Type} {f : α → β} {result : Except ε α}

/-- What is done with a success leaves an error as it is. -/
theorem eq_error_of_map_eq_error {e : ε} (h : result.map f = .error e) : result = .error e := by
  cases result with
  | ok a => cases h
  | error d =>
    cases h
    rfl

/-- A success after something was done with it was a success before. -/
theorem exists_of_map_eq_ok {b : β} (h : result.map f = .ok b) :
    ∃ a, result = .ok a ∧ f a = b := by
  cases result with
  | ok a => exact ⟨a, rfl, Except.ok.inj h⟩
  | error e => cases h

end Results

namespace Form

/-- A word has no nonterminals. -/
@[simp] theorem splitLeftmost_ofWord (word : List Char) : splitLeftmost (ofWord word) = none := by
  induction word with
  | nil => rfl
  | cons c rest ih => rw [ofWord_cons, splitLeftmost, ih, Option.map_none]

/-- The leftmost nonterminal is the one behind letters only. -/
@[simp] theorem splitLeftmost_letters (letters : List Char) (name : String) (after : Form) :
    splitLeftmost (ofWord letters ++ .nonterminal name :: after) =
      some (ofWord letters, name, after) := by
  induction letters with
  | nil => rfl
  | cons c rest ih => rw [ofWord_cons, List.cons_append, splitLeftmost, ih, Option.map_some]

/-- A form spells a word, or it has a leftmost nonterminal. -/
theorem word_or_leftmost (form : Form) :
    (∃ word, form = ofWord word) ∨
      ∃ letters name after, form = ofWord letters ++ .nonterminal name :: after := by
  induction form with
  | nil => exact .inl ⟨[], rfl⟩
  | cons s rest ih =>
    cases s with
    | nonterminal n => exact .inr ⟨[], n, rest, rfl⟩
    | terminal c =>
      rcases ih with ⟨word, rfl⟩ | ⟨letters, name, after, rfl⟩
      · exact .inl ⟨c :: word, rfl⟩
      · exact .inr ⟨c :: letters, name, after, rfl⟩

/-- A form with a nonterminal has a leftmost one. -/
theorem exists_leftmost_of_mem {form : Form} {n : String} (h : .nonterminal n ∈ form) :
    ∃ letters name after, form = ofWord letters ++ .nonterminal name :: after := by
  rcases form.word_or_leftmost with ⟨word, rfl⟩ | leftmost
  · obtain ⟨c, _, same⟩ := List.mem_map.1 h
    cases same
  · exact leftmost

end Form

namespace Grammar

open Sampling

variable {g : Grammar}

/-- A form is **stuck** at a nonterminal when this is its leftmost one and has no alternatives. -/
def Stuck (g : Grammar) (form : Form) (name : String) : Prop :=
  (∃ before after, form = Form.ofWord before ++ .nonterminal name :: after) ∧
    ∀ rhs, ⟨name, rhs⟩ ∉ g.productions

/-- A nonterminal at which a form is stuck occurs in the form. -/
theorem Stuck.mem {form : Form} {name : String} (h : g.Stuck form name) :
    .nonterminal name ∈ form := by
  obtain ⟨⟨before, after, rfl⟩, _⟩ := h
  exact List.mem_append_right _ List.mem_cons_self

section Steps

variable {σ : Type} {chooser : Chooser σ Form} {budget left : Nat} {source : σ}
  {letters : List Char} {name : String} {after : Form}

/-- A word is not rewritten any more. -/
theorem finishDerivation_ofWord (word : List Char) :
    g.finishDerivation chooser budget left (Form.ofWord word) source =
      (.ok [Form.ofWord word], source) := by
  rw [finishDerivation, Form.splitLeftmost_ofWord]

/-- Nothing is drawn once the budget is spent. -/
theorem finishDerivation_spent :
    g.finishDerivation chooser budget 0 (Form.ofWord letters ++ .nonterminal name :: after) source =
      (.error ⟨.derivation (Form.ofWord letters ++ .nonterminal name :: after),
        .budgetExceeded budget⟩, source) := by
  rw [finishDerivation, Form.splitLeftmost_letters]

/-- A nonterminal for which nothing is chosen is a dead end. -/
theorem finishDerivation_deadEnd {rest : σ}
    (chosen : chooser.choose source (g.alternatives name).toList = (none, rest)) :
    g.finishDerivation chooser budget (left + 1)
        (Form.ofWord letters ++ .nonterminal name :: after) source =
      (.error ⟨.derivation (Form.ofWord letters ++ .nonterminal name :: after), .deadEnd name⟩,
        rest) := by
  rw [finishDerivation, Form.splitLeftmost_letters]
  simp only [chosen]

/-- The alternative that is chosen takes the place of the leftmost nonterminal. -/
theorem finishDerivation_expand {rhs : Form} {rest : σ}
    (chosen : chooser.choose source (g.alternatives name).toList = (some rhs, rest)) :
    g.finishDerivation chooser budget (left + 1)
        (Form.ofWord letters ++ .nonterminal name :: after) source =
      ((g.finishDerivation chooser budget left (Form.ofWord letters ++ rhs ++ after) rest).1.map
          ((Form.ofWord letters ++ .nonterminal name :: after) :: ·),
        (g.finishDerivation chooser budget left (Form.ofWord letters ++ rhs ++ after) rest).2) := by
  rw [finishDerivation, Form.splitLeftmost_letters]
  simp only [chosen]

/-- **What a derivation comes to** from a form with `left` rewritings to spend, whatever is chosen on the
way. -/
inductive Outcome (g : Grammar) (budget : Nat) :
    Nat → Form → Except (Diagnostic DerivationFault) (List Form) → Prop
  /-- A word is done. -/
  | done (left : Nat) (word : List Char) :
      Outcome g budget left (Form.ofWord word) (.ok [Form.ofWord word])
  /-- The budget is spent. -/
  | spent {form : Form} {name : String} (occurs : .nonterminal name ∈ form) :
      Outcome g budget 0 form (.error ⟨.derivation form, .budgetExceeded budget⟩)
  /-- There is no alternative to go on with. -/
  | deadEnd {left : Nat} {form : Form} {name : String} (stuck : g.Stuck form name) :
      Outcome g budget (left + 1) form (.error ⟨.derivation form, .deadEnd name⟩)
  /-- A leftmost step leaves one rewriting less to spend. -/
  | step {left : Nat} {u v : Form} {result : Except (Diagnostic DerivationFault) (List Form)}
      (first : g.LeftmostStep u v) (rest : Outcome g budget left v result) :
      Outcome g budget (left + 1) u (result.map (u :: ·))

/-- **Derivations have no other outcomes.** -/
theorem outcome_finishDerivation (g : Grammar) (chooser : Chooser σ Form) (budget left : Nat)
    (form : Form) (source : σ) :
    g.Outcome budget left form (g.finishDerivation chooser budget left form source).1 := by
  induction left generalizing form source with
  | zero =>
    rcases form.word_or_leftmost with ⟨word, rfl⟩ | ⟨letters, name, after, rfl⟩
    · rw [finishDerivation_ofWord]
      exact .done 0 word
    · rw [finishDerivation_spent]
      exact .spent (List.mem_append_right _ List.mem_cons_self)
  | succ left ih =>
    rcases form.word_or_leftmost with ⟨word, rfl⟩ | ⟨letters, name, after, rfl⟩
    · rw [finishDerivation_ofWord]
      exact .done (left + 1) word
    by_cases none : (g.alternatives name).toList = []
    · have chosen := chooser.choose_nil source
      rw [← none] at chosen
      rw [finishDerivation_deadEnd (Prod.ext chosen rfl)]
      refine .deadEnd ⟨⟨letters, after, rfl⟩, fun rhs mem => ?_⟩
      have listed := SortedSet.mem_toList.2 (mem_alternatives.2 mem)
      rw [none] at listed
      cases listed
    · obtain ⟨rhs, listed, chosen⟩ := chooser.choose_mem source _ none
      have mem := mem_alternatives.1 (SortedSet.mem_toList.1 listed)
      rw [finishDerivation_expand (Prod.ext chosen rfl)]
      exact .step (.expand letters after ⟨name, rhs⟩ mem) (ih _ _)

end Steps

/-- **A dead end is a stuck form** that fewer leftmost steps than the budget allows have led to. -/
theorem Outcome.exists_stuck {budget left : Nat} {form : Form} {place : Place} {name : String}
    (h : g.Outcome budget left form (.error ⟨place, .deadEnd name⟩)) :
    ∃ n reached, n < left ∧ g.LeftmostDerives n form reached ∧ g.Stuck reached name ∧
      place = .derivation reached := by
  generalize failed : Except.error _ = result at h
  induction h with
  | done _ _ => cases failed
  | spent _ => cases failed
  | deadEnd stuck =>
    cases failed
    exact ⟨0, _, Nat.succ_pos _, .refl _, stuck, rfl⟩
  | step first _ ih =>
    obtain ⟨n, reached, lt, steps, stuck⟩ := ih (eq_error_of_map_eq_error failed.symm).symm
    exact ⟨n + 1, reached, Nat.succ_lt_succ lt, .step first steps, stuck⟩

/-- **A grammar without stuck forms has no dead ends**, whatever the source draws and whatever the
budget is. -/
theorem randomDerivationFrom_ne_deadEnd {name : String}
    (never : ∀ form, g.Derives [.nonterminal name] form → ∀ n, ¬ g.Stuck form n)
    (source : Source) (budget : Nat) (place : Place) (n : String) :
    (g.randomDerivationFrom name source budget).1 ≠ .error ⟨place, .deadEnd n⟩ := by
  intro h
  have outcome := g.outcome_finishDerivation Source.chooser budget budget [.nonterminal name] source
  rw [eq_error_of_map_eq_error h] at outcome
  obtain ⟨_, reached, _, steps, stuck, _⟩ := outcome.exists_stuck
  exact never reached steps.derives n stuck

end Grammar

end FormalLanguages
