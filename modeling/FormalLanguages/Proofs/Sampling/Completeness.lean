import FormalLanguages.Proofs.Sampling.Choice
import FormalLanguages.Proofs.Sampling.Soundness

/-! # Every derivation can be drawn

Random derivations leave nothing out: one word for each step makes a source choose the forms of any
leftmost derivation, and nothing else is drawn (`Grammar.Trace.exists_draws`). So the words of a grammar
are exactly those that some source generates within some budget (`Grammar.randomDerivation_complete`).
-/

namespace FormalLanguages.Grammar

open Sampling

variable {g : Grammar} {u v : Form} {forms : List Form} {word : List Char}

/-- **A leftmost step can be drawn**: some word makes the derivation go on with its result. -/
theorem LeftmostStep.exists_draw
    (few : ∀ p, p ∈ g.productions → (g.alternatives p.lhs).size < UInt32.size)
    (step : g.LeftmostStep u v) :
    ∃ draw : UInt32, ∀ budget left rest stream drawn,
      g.finishDerivation Source.chooser budget (left + 1) u ⟨draw :: rest, stream, drawn⟩ =
        ((g.finishDerivation Source.chooser budget left v ⟨rest, stream, drawn + 1⟩).1.map (u :: ·),
          (g.finishDerivation Source.chooser budget left v ⟨rest, stream, drawn + 1⟩).2) := by
  obtain ⟨before, after, p, mem⟩ := step
  have listed : p.rhs ∈ (g.alternatives p.lhs).toList :=
    SortedSet.mem_toList.2 (mem_alternatives.2 mem)
  obtain ⟨draw, chosen⟩ := Source.exists_word_choose listed (few p mem)
  exact ⟨draw, fun budget left rest stream drawn =>
    finishDerivation_expand (chosen rest stream drawn)⟩

/-- **Every trace can be drawn**, with one word for each of its steps and whatever follows them. -/
theorem Trace.exists_draws
    (few : ∀ p, p ∈ g.productions → (g.alternatives p.lhs).size < UInt32.size)
    (trace : g.Trace u forms word) :
    ∃ draws : List UInt32, draws.length + 1 = forms.length ∧
      ∀ budget left rest stream drawn, draws.length ≤ left →
        g.finishDerivation Source.chooser budget left u ⟨draws ++ rest, stream, drawn⟩ =
          (.ok forms, ⟨rest, stream, drawn + draws.length⟩) := by
  induction forms generalizing u with
  | nil => cases trace.head
  | cons form others ih =>
    cases trace.head
    rcases trace_cons_iff.1 trace with ⟨rfl, rfl⟩ | ⟨v, first, trace⟩
    · exact ⟨[], rfl, fun budget left rest stream drawn _ => finishDerivation_ofWord word⟩
    · obtain ⟨draw, next⟩ := first.exists_draw few
      obtain ⟨draws, length, run⟩ := ih trace
      refine ⟨draw :: draws, by rw [List.length_cons, List.length_cons, length], ?_⟩
      intro budget left rest stream drawn enough
      cases left with
      | zero => cases enough
      | succ fewer =>
        rw [List.cons_append, next, run _ _ _ _ _ (Nat.le_of_succ_le_succ enough),
          List.length_cons, Nat.add_assoc, Nat.add_comm 1]
        rfl

/-- **Random derivations are complete** where words can tell the alternatives of a nonterminal apart.
For every leftmost derivation there are words, one for each of its steps, from which a source derives
exactly its forms, and none of the words is left or missing then, whatever the budget beyond the steps.
So the language of the grammar is what sources generate within some budget. -/
theorem randomDerivation_complete (wf : g.WellFormed)
    (few : ∀ n, n ∈ g.nonterminals → (g.alternatives n).size < UInt32.size) :
    (∀ name forms word, g.Trace [.nonterminal name] forms word →
      ∃ draws : List UInt32, draws.length + 1 = forms.length ∧
        ∀ budget, draws.length ≤ budget →
          g.randomDerivationFrom name (.ofList draws) budget =
            (.ok ⟨forms⟩, { ahead := [], drawn := draws.length })) ∧
      ∀ word, g.Language word ↔
        ∃ draws budget, (g.randomWord (.ofList draws) budget).1 = .ok (String.ofList word) := by
  have few' : ∀ p, p ∈ g.productions → (g.alternatives p.lhs).size < UInt32.size :=
    fun p mem => few p.lhs (wf.lhs_mem p mem)
  have drawn : ∀ name forms word, g.Trace [.nonterminal name] forms word →
      ∃ draws : List UInt32, draws.length + 1 = forms.length ∧
        ∀ budget, draws.length ≤ budget →
          g.randomDerivationFrom name (.ofList draws) budget =
            (.ok ⟨forms⟩, { ahead := [], drawn := draws.length }) := by
    intro name forms word trace
    obtain ⟨draws, length, run⟩ := trace.exists_draws few'
    refine ⟨draws, length, fun budget enough => ?_⟩
    have finished := run budget budget [] none 0 enough
    rw [List.append_nil, Nat.zero_add] at finished
    rw [randomDerivationFrom, derivationFrom, Source.ofList, finished]
    rfl
  refine ⟨drawn, fun word => ?_⟩
  rw [Language, generates_iff_exists_trace]
  constructor
  · rintro ⟨forms, trace⟩
    obtain ⟨draws, _, run⟩ := drawn _ _ _ trace
    refine ⟨draws, draws.length, ?_⟩
    rw [randomWord, randomDerivation, run _ (Nat.le_refl _)]
    exact congrArg Except.ok (Derivation.word_eq trace.last)
  · rintro ⟨draws, budget, generated⟩
    obtain ⟨d, derived, spelled⟩ := exists_of_map_eq_ok generated
    obtain ⟨other, trace, spelled', _⟩ := exists_trace_of_derivationFrom derived
    have same : other = word := String.ofList_inj.1 (spelled'.symm.trans spelled)
    exact ⟨d.forms, same ▸ trace⟩

/-- A derivation of the sprouting grammar that branches, erases and ends in two letters is drawn by three
words, and its word is generated. -/
theorem randomDerivation_complete_sprouting :
    sprouting.WellFormed ∧
      (∀ n, n ∈ sprouting.nonterminals → (sprouting.alternatives n).size < UInt32.size) ∧
      sprouting.Trace [.nonterminal "S"]
        [[.nonterminal "S"], [.terminal 'a', .nonterminal "S", .nonterminal "B"],
          [.terminal 'a', .nonterminal "B"], [.terminal 'a', .terminal 'b', .terminal 'b']]
        ['a', 'b', 'b'] ∧
      (∃ draws : List UInt32, draws.length = 3 ∧ ∀ budget, 3 ≤ budget →
        sprouting.randomDerivationFrom "S" (.ofList draws) budget =
          (.ok ⟨[[.nonterminal "S"], [.terminal 'a', .nonterminal "S", .nonterminal "B"],
            [.terminal 'a', .nonterminal "B"], [.terminal 'a', .terminal 'b', .terminal 'b']]⟩,
            { ahead := [], drawn := 3 })) ∧
      ∃ draws budget, (sprouting.randomWord (.ofList draws) budget).1 = .ok "abb" := by
  have wf : sprouting.WellFormed := by decide +kernel
  have few : ∀ n, n ∈ sprouting.nonterminals →
      (sprouting.alternatives n).size < UInt32.size := by decide +kernel
  have branching : sprouting.LeftmostStep [.nonterminal "S"]
      [.terminal 'a', .nonterminal "S", .nonterminal "B"] :=
    .expand [] [] ⟨"S", [.terminal 'a', .nonterminal "S", .nonterminal "B"]⟩ (by decide +kernel)
  have erasing : sprouting.LeftmostStep [.terminal 'a', .nonterminal "S", .nonterminal "B"]
      [.terminal 'a', .nonterminal "B"] :=
    .expand ['a'] [.nonterminal "B"] ⟨"S", []⟩ (by decide +kernel)
  have ending : sprouting.LeftmostStep [.terminal 'a', .nonterminal "B"]
      [.terminal 'a', .terminal 'b', .terminal 'b'] :=
    .expand ['a'] [] ⟨"B", [.terminal 'b', .terminal 'b']⟩ (by decide +kernel)
  have trace : sprouting.Trace _ _ ['a', 'b', 'b'] :=
    .cons branching (.cons erasing (.cons ending (.ofWord sprouting ['a', 'b', 'b'])))
  obtain ⟨drawn, language⟩ := randomDerivation_complete wf few
  obtain ⟨draws, length, run⟩ := drawn _ _ _ trace
  have three : draws.length = 3 := Nat.succ.inj length
  rw [three] at run
  refine ⟨wf, few, trace, ⟨draws, three, run⟩, ?_⟩
  exact (language ['a', 'b', 'b']).1 trace.leftmostDerives.derives

end FormalLanguages.Grammar
