import FormalLanguages.Proofs.Sampling.Derivation

/-! # What derivations come to

A derivation that succeeds records a `Grammar.Trace`: its forms go from the nonterminal to the word by
leftmost steps, and no form is left out. So the nonterminal generates the word that it spells, however
its source chooses (`Grammar.derivationFrom_sound`). -/

namespace FormalLanguages

/-- The symbols of a word spell the word. -/
theorem Form.join_text_ofWord (word : List Char) :
    String.join ((ofWord word).map Symbol.text) = String.ofList word := by
  rw [← String.toList_inj, String.toList_join, String.toList_ofList]
  induction word with
  | nil => rfl
  | cons c rest ih =>
    rw [ofWord_cons, List.map_cons, List.flatMap_cons, ih]
    simp [Symbol.text, Char.toString]

/-- A derivation spells the word that its last form spells. -/
theorem Derivation.word_eq {d : Derivation} {word : List Char}
    (h : d.forms.getLast? = some (Form.ofWord word)) : d.word = String.ofList word := by
  have last : d.last = Form.ofWord word := by
    rw [Derivation.last, List.getLastD_eq_getLast?, h, Option.getD_some]
  rw [Derivation.word, last, Form.join_text_ofWord]

namespace Grammar

open Sampling

variable {g : Grammar} {u : Form} {forms : List Form}

/-- **What succeeds is a trace**, with at most one form more than there were rewritings to spend. -/
theorem Outcome.exists_trace {budget left : Nat} (h : g.Outcome budget left u (.ok forms)) :
    ∃ word, g.Trace u forms word ∧ forms.length ≤ left + 1 := by
  generalize finished : Except.ok forms = result at h
  induction h generalizing forms with
  | done left word =>
    cases finished
    exact ⟨word, .ofWord g word, Nat.succ_le_succ (Nat.zero_le left)⟩
  | spent _ => cases finished
  | deadEnd _ => cases finished
  | step first _ ih =>
    obtain ⟨others, before, rfl⟩ := exists_of_map_eq_ok finished.symm
    obtain ⟨word, trace, short⟩ := ih before.symm
    exact ⟨word, .cons first trace, Nat.succ_le_succ short⟩

/-- A derivation that succeeds records a trace of the word that it spells. -/
theorem exists_trace_of_derivationFrom {σ : Type} {chooser : Chooser σ Form} {name : String}
    {source : σ} {budget : Nat} {d : Derivation}
    (h : (g.derivationFrom chooser name source budget).1 = .ok d) :
    ∃ word, g.Trace [.nonterminal name] d.forms word ∧ d.word = String.ofList word ∧
      d.forms.length ≤ budget + 1 := by
  obtain ⟨forms, finished, rfl⟩ := exists_of_map_eq_ok h
  have outcome := g.outcome_finishDerivation chooser budget budget [.nonterminal name] source
  rw [finished] at outcome
  obtain ⟨word, trace, short⟩ := outcome.exists_trace
  exact ⟨word, trace, Derivation.word_eq trace.last, short⟩

/-- **Derivations are sound**, whatever is chosen on the way. One that succeeds records a leftmost
derivation of the word that it spells, with at most one form more than the budget has rewritings, and
so the nonterminal generates the word. One that meets a dead end reports a form that fewer leftmost
steps than the budget allows have led to, and whose leftmost nonterminal has no alternatives. -/
theorem derivationFrom_sound {σ : Type} (chooser : Chooser σ Form) (g : Grammar) (name : String)
    (source : σ) (budget : Nat) :
    (∀ d, (g.derivationFrom chooser name source budget).1 = .ok d →
      ∃ word, g.Trace [.nonterminal name] d.forms word ∧ d.word = String.ofList word ∧
        d.forms.length ≤ budget + 1 ∧ g.Generates name word) ∧
      ∀ place n, (g.derivationFrom chooser name source budget).1 = .error ⟨place, .deadEnd n⟩ →
        ∃ steps reached, steps < budget ∧ g.LeftmostDerives steps [.nonterminal name] reached ∧
          g.Stuck reached n ∧ place = .derivation reached := by
  constructor
  · intro d h
    obtain ⟨word, trace, spelled, short⟩ := exists_trace_of_derivationFrom h
    exact ⟨word, trace, spelled, short, trace.leftmostDerives.derives⟩
  · intro place n h
    have outcome := g.outcome_finishDerivation chooser budget budget [.nonterminal name] source
    rw [eq_error_of_map_eq_error h] at outcome
    exact outcome.exists_stuck

/-- A grammar with an erasing, a branching and a useless alternative for its start. -/
def sprouting : Grammar where
  start := "S"
  nonterminals := .ofList ["S", "B", "D"]
  terminals := .ofList ['a', 'b']
  productions := .ofList [
    ⟨"S", []⟩, ⟨"S", [.terminal 'a', .nonterminal "S", .nonterminal "B"]⟩, ⟨"S", [.nonterminal "D"]⟩,
    ⟨"B", []⟩, ⟨"B", [.terminal 'b', .terminal 'b']⟩]

/-- Of the words that are drawn from the sprouting grammar the first is refused. The next ones make it
branch, vanish and end in two letters, or branch and get stuck at the useless nonterminal. -/
theorem derivationFrom_sound_sprouting :
    (sprouting.derivationFrom Source.chooser "S"
        (.ofList [4294967295, 1431655766, 0, 2147483648]) 3).1 =
      .ok ⟨[[.nonterminal "S"], [.terminal 'a', .nonterminal "S", .nonterminal "B"],
        [.terminal 'a', .nonterminal "B"], [.terminal 'a', .terminal 'b', .terminal 'b']]⟩ ∧
      sprouting.Generates "S" ['a', 'b', 'b'] ∧
      (sprouting.derivationFrom Source.chooser "S" (.ofList [1431655766, 2863311531]) 3).1 =
        .error ⟨.derivation [.terminal 'a', .nonterminal "D", .nonterminal "B"], .deadEnd "D"⟩ ∧
      sprouting.Stuck [.terminal 'a', .nonterminal "D", .nonterminal "B"] "D" := by
  have success : (sprouting.derivationFrom Source.chooser "S"
        (.ofList [4294967295, 1431655766, 0, 2147483648]) 3).1 =
      .ok ⟨[[.nonterminal "S"], [.terminal 'a', .nonterminal "S", .nonterminal "B"],
        [.terminal 'a', .nonterminal "B"],
        [.terminal 'a', .terminal 'b', .terminal 'b']]⟩ := by decide +kernel
  have failure : (sprouting.derivationFrom Source.chooser "S"
        (.ofList [1431655766, 2863311531]) 3).1 =
      .error ⟨.derivation [.terminal 'a', .nonterminal "D", .nonterminal "B"],
        .deadEnd "D"⟩ := by decide +kernel
  obtain ⟨word, trace, _, _, generated⟩ :=
    (derivationFrom_sound Source.chooser sprouting "S" _ 3).1 _ success
  obtain ⟨_, reached, _, _, stuck, same⟩ :=
    (derivationFrom_sound Source.chooser sprouting "S" _ 3).2 _ _ failure
  have spelled : [.terminal 'a', .terminal 'b', .terminal 'b'] = Form.ofWord word :=
    Option.some.inj trace.last
  have letters : ['a', 'b', 'b'] = word :=
    (List.map_inj_right fun _ _ => Symbol.terminal.inj).1 spelled
  cases same
  exact ⟨success, letters ▸ generated, failure, stuck⟩

end Grammar

end FormalLanguages
