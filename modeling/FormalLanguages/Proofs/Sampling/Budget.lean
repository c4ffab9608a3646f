import FormalLanguages.Proofs.Sampling.Soundness

/-! # Budgets only cut derivations short

What a source makes of a nonterminal does not depend on the budget: `Grammar.Rewrites` follows its
choices without looking at one. A budget of `n` rewritings is exceeded just when a nonterminal is left
in the form that `n` of them lead to, and this form is reported; otherwise a larger budget changes
nothing, neither the outcome nor what is drawn (`Grammar.derivationFrom_budget`). -/

namespace FormalLanguages.Grammar

open Sampling

variable {σ : Type} {g : Grammar} {chooser : Chooser σ Form} {budget left : Nat} {u v : Form}
  {source rest : σ}

/-! ## A budget that is used up -/

/-- **Rewriting as the source chooses**: exactly `n` times the leftmost nonterminal is replaced by the
alternative that the source chooses for it. The first form comes with the source as it is then, and the
last form with what is left of the source. -/
inductive Rewrites (g : Grammar) (chooser : Chooser σ Form) : Nat → Form → σ → Form → σ → Prop
  /-- Nothing is drawn when nothing is rewritten. -/
  | refl (u : Form) (source : σ) : Rewrites g chooser 0 u source u source
  /-- The alternative that is chosen takes the place of the leftmost nonterminal. -/
  | step {n : Nat} {letters : List Char} {name : String} {rhs after v : Form} {source next rest : σ}
      (chosen : chooser.choose source (g.alternatives name).toList = (some rhs, next))
      (others : Rewrites g chooser n (Form.ofWord letters ++ rhs ++ after) next v rest) :
      Rewrites g chooser (n + 1) (Form.ofWord letters ++ .nonterminal name :: after) source v rest

/-- **A budget is exceeded** at the form that its rewritings lead to, if a nonterminal is left there,
and nothing more is drawn. -/
theorem Rewrites.finishDerivation_eq (h : g.Rewrites chooser left u source v rest) {n : String}
    (occurs : .nonterminal n ∈ v) :
    g.finishDerivation chooser budget left u source =
      (.error ⟨.derivation v, .budgetExceeded budget⟩, rest) := by
  -- the rewritings are the steps of the derivation, and after the last one none is left to spend
  induction h with
  | refl u source =>
    obtain ⟨letters, name, after, rfl⟩ := Form.exists_leftmost_of_mem occurs
    exact finishDerivation_spent
  | step chosen _ ih =>
    rw [finishDerivation_expand chosen, ih occurs]
    rfl

/-! ## A budget that is large enough -/

/-- A derivation **finishes within** a number of rewritings when it has an outcome other than an
exceeded budget, and the same one with any number of further rewritings to spend. -/
def FinishesWithin (g : Grammar) (chooser : Chooser σ Form) (left : Nat) (form : Form) (source : σ) :
    Prop :=
  ∃ result, (∀ place budget, result.1 ≠ .error ⟨place, .budgetExceeded budget⟩) ∧
    ∀ budget more, left ≤ more → g.finishDerivation chooser budget more form source = result

/-- A word is finished. -/
theorem finishesWithin_ofWord (word : List Char) :
    g.FinishesWithin chooser left (Form.ofWord word) source := by
  refine ⟨(.ok [Form.ofWord word], source), fun place budget h => ?_, fun budget more _ => ?_⟩
  · cases h
  · exact finishDerivation_ofWord word

section Choices

variable {letters : List Char} {name : String} {after : Form} {next : σ}

/-- A dead end is an outcome as soon as there is a rewriting to spend. -/
theorem finishesWithin_of_deadEnd
    (chosen : chooser.choose source (g.alternatives name).toList = (none, next)) :
    g.FinishesWithin chooser (left + 1) (Form.ofWord letters ++ .nonterminal name :: after)
      source := by
  refine ⟨(.error ⟨.derivation (Form.ofWord letters ++ .nonterminal name :: after), .deadEnd name⟩,
    next), fun place budget h => ?_, fun budget more enough => ?_⟩
  · cases h
  -- without a rewriting to spend it would go unnoticed
  · cases more with
    | zero => cases enough
    | succ fewer => exact finishDerivation_deadEnd chosen

/-- With one more rewriting to spend the step before can be taken as well. -/
theorem FinishesWithin.expand {rhs : Form}
    (chosen : chooser.choose source (g.alternatives name).toList = (some rhs, next))
    (h : g.FinishesWithin chooser left (Form.ofWord letters ++ rhs ++ after) next) :
    g.FinishesWithin chooser (left + 1) (Form.ofWord letters ++ .nonterminal name :: after)
      source := by
  obtain ⟨result, unspent, same⟩ := h
  refine ⟨(result.1.map ((Form.ofWord letters ++ .nonterminal name :: after) :: ·), result.2),
    fun place budget h => unspent place budget (eq_error_of_map_eq_error h),
    fun budget more enough => ?_⟩
  cases more with
  | zero => cases enough
  | succ fewer =>
    rw [finishDerivation_expand chosen, same budget fewer (Nat.le_of_succ_le_succ enough)]

end Choices

/-- **A number of rewritings is used up or it is enough.** -/
theorem rewrites_or_finishesWithin (g : Grammar) (chooser : Chooser σ Form) (left : Nat) (form : Form)
    (source : σ) :
    (∃ v rest, g.Rewrites chooser left form source v rest ∧ ∃ n, .nonterminal n ∈ v) ∨
      g.FinishesWithin chooser left form source := by
  induction left generalizing form source with
  | zero =>
    rcases form.word_or_leftmost with ⟨word, rfl⟩ | ⟨letters, name, after, rfl⟩
    · exact .inr (finishesWithin_ofWord word)
    -- whether there are alternatives for the nonterminal is not asked any more
    · exact .inl ⟨_, source, .refl _ source, name, List.mem_append_right _ List.mem_cons_self⟩
  | succ left ih =>
    rcases form.word_or_leftmost with ⟨word, rfl⟩ | ⟨letters, name, after, rfl⟩
    · exact .inr (finishesWithin_ofWord word)
    rcases chosen : chooser.choose source (g.alternatives name).toList with ⟨_ | rhs, next⟩
    · exact .inr (finishesWithin_of_deadEnd chosen)
    · rcases ih (Form.ofWord letters ++ rhs ++ after) next with ⟨v, rest, others, occurs⟩ | finished
      · exact .inl ⟨v, rest, .step chosen others, occurs⟩
      · exact .inr (finished.expand chosen)

/-! ## Two budgets -/

section Budgets

variable {name : String} {fewer more : Nat}

/-- Rewritings that leave a nonterminal exceed the budget that allows no more of them. -/
theorem Rewrites.derivationFrom_eq
    (h : g.Rewrites chooser budget [.nonterminal name] source v rest) {n : String}
    (occurs : .nonterminal n ∈ v) :
    g.derivationFrom chooser name source budget =
      (.error ⟨.derivation v, .budgetExceeded budget⟩, rest) := by
  rw [derivationFrom, h.finishDerivation_eq occurs]
  rfl

/-- A derivation that finishes within a budget has the same outcome and the same draws with a larger
one. -/
theorem FinishesWithin.derivationFrom_eq
    (h : g.FinishesWithin chooser fewer [.nonterminal name] source) (le : fewer ≤ more) :
    g.derivationFrom chooser name source fewer = g.derivationFrom chooser name source more ∧
      ∀ place budget, (g.derivationFrom chooser name source fewer).1 ≠
        .error ⟨place, .budgetExceeded budget⟩ := by
  obtain ⟨result, unspent, same⟩ := h
  have small := same fewer fewer (Nat.le_refl fewer)
  refine ⟨?_, fun place budget exceeded => ?_⟩
  · rw [derivationFrom, derivationFrom, small, same more more le]
  · have exceeded := eq_error_of_map_eq_error exceeded
    rw [small] at exceeded
    exact unspent place budget exceeded

end Budgets

/-- **A budget only cuts derivations short.** With a smaller budget a derivation has the outcome that it
has with a larger one, from the same draws, or it reports that the smaller budget is exceeded. It does
the latter just when the rewritings of the smaller budget lead to a form with a nonterminal, be it one
without alternatives; the report shows this form, and only these rewritings have drawn. -/
theorem derivationFrom_budget {fewer more : Nat} (le : fewer ≤ more) (g : Grammar)
    (chooser : Chooser σ Form) (name : String) (source : σ) :
    ((g.derivationFrom chooser name source fewer = g.derivationFrom chooser name source more ∧
          ∀ place budget, (g.derivationFrom chooser name source fewer).1 ≠
            .error ⟨place, .budgetExceeded budget⟩) ∨
        ∃ form rest, g.derivationFrom chooser name source fewer =
          (.error ⟨.derivation form, .budgetExceeded fewer⟩, rest)) ∧
      ∀ form rest, g.derivationFrom chooser name source fewer =
          (.error ⟨.derivation form, .budgetExceeded fewer⟩, rest) ↔
        g.Rewrites chooser fewer [.nonterminal name] source form rest ∧
          ∃ n, .nonterminal n ∈ form := by
  rcases g.rewrites_or_finishesWithin chooser fewer [.nonterminal name] source with
    ⟨v, rest, rewrites, n, occurs⟩ | finished
  -- one result cannot be two reports, so the report names the form that is reached
  · have exceeded := rewrites.derivationFrom_eq occurs
    refine ⟨.inr ⟨v, rest, exceeded⟩, fun form others => ⟨fun h => ?_, ?_⟩⟩
    · cases exceeded.symm.trans h
      exact ⟨rewrites, n, occurs⟩
    · rintro ⟨rewrites, n, occurs⟩
      exact rewrites.derivationFrom_eq occurs
  -- where the budget is enough, no form with a nonterminal is left for a report
  · have unchanged := finished.derivationFrom_eq le
    refine ⟨.inl unchanged, fun form rest => ⟨fun h => ?_, ?_⟩⟩
    · exact absurd (congrArg Prod.fst h) (unchanged.2 _ _)
    · rintro ⟨rewrites, n, occurs⟩
      exact rewrites.derivationFrom_eq occurs

/-- Two words lead the sprouting grammar to a form whose leftmost nonterminal has no alternatives. A
budget of two is exceeded there, and any larger one meets the dead end. -/
theorem derivationFrom_budget_sprouting :
    2 ≤ 3 ∧ 3 ≤ 4 ∧
      (∃ rest : Source, rest.drawn = 2 ∧
        sprouting.Rewrites Source.chooser 2 [.nonterminal "S"] (.ofList [1431655766, 2863311531])
          [.terminal 'a', .nonterminal "D", .nonterminal "B"] rest) ∧
      (sprouting.derivationFrom Source.chooser "S" (.ofList [1431655766, 2863311531]) 2).1 =
        .error ⟨.derivation [.terminal 'a', .nonterminal "D", .nonterminal "B"],
          .budgetExceeded 2⟩ ∧
      sprouting.derivationFrom Source.chooser "S" (.ofList [1431655766, 2863311531]) 3 =
        sprouting.derivationFrom Source.chooser "S" (.ofList [1431655766, 2863311531]) 4 ∧
      (sprouting.derivationFrom Source.chooser "S" (.ofList [1431655766, 2863311531]) 3).1 =
        .error ⟨.derivation [.terminal 'a', .nonterminal "D", .nonterminal "B"], .deadEnd "D"⟩ := by
  have exceeded : (sprouting.derivationFrom Source.chooser "S"
        (.ofList [1431655766, 2863311531]) 2).1 =
      .error ⟨.derivation [.terminal 'a', .nonterminal "D", .nonterminal "B"],
        .budgetExceeded 2⟩ := by decide +kernel
  have drawn : (sprouting.derivationFrom Source.chooser "S"
      (.ofList [1431655766, 2863311531]) 2).2.drawn = 2 := by decide +kernel
  have failed : (sprouting.derivationFrom Source.chooser "S"
        (.ofList [1431655766, 2863311531]) 3).1 =
      .error ⟨.derivation [.terminal 'a', .nonterminal "D", .nonterminal "B"],
        .deadEnd "D"⟩ := by decide +kernel
  have two : 2 ≤ 3 := by decide
  have three : 3 ≤ 4 := by decide
  obtain ⟨_, exceeds⟩ := derivationFrom_budget two sprouting Source.chooser "S"
    (.ofList [1431655766, 2863311531])
  obtain ⟨rewrites, _⟩ := (exceeds _ _).1 (Prod.ext exceeded rfl)
  obtain ⟨⟨same, _⟩ | ⟨form, rest, other⟩, _⟩ := derivationFrom_budget three sprouting
    Source.chooser "S" (.ofList [1431655766, 2863311531])
  · exact ⟨two, three, ⟨_, drawn, rewrites⟩, exceeded, same, failed⟩
  · rw [other] at failed
    cases failed

end FormalLanguages.Grammar
