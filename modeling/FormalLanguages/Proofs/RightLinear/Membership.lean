import FormalLanguages.Proofs.Automaton.Determinization
import FormalLanguages.Proofs.Grammar.NormalOutcome
import FormalLanguages.Proofs.RightLinear.ToAutomaton

/-! # Three ways to decide membership

Whether a right-linear grammar derives a word can be read off the chart of its normal form, off the
runs of its automaton, and off the determinized automaton. The chart always gives an answer, since
it is built for a grammar in normal form (`Grammar.decideMembership_normalForm`), and all three
answers are the same (`Grammar.membership_agrees`). -/

namespace FormalLanguages.Grammar

variable {g : Grammar}

/-- The chart of the normal form decides the language of the grammar, without a fault. -/
theorem decideMembership_normalForm (wf : g.WellFormed) {word : List Char} {answer : Bool}
    (right : answer = true ↔ g.Language word) :
    g.normalForm.decideMembership word = .ok answer := by
  have normal := (normalized_normalForm wf).normal
  have same : g.normalForm.generatesByChart word = answer := by
    rw [Bool.eq_iff_iff, normal.generatesByChart_iff, right, language_iff]
    exact yields_start_normalForm_iff wf
  rw [decideMembership, firstNonconforming_eq_none_iff.2 normal, same]

/-- **All ways to decide membership agree**: for a grammar that has an automaton, the chart of its
normal form, the automaton and the determinized automaton give the same answer on every word. -/
theorem membership_agrees (wf : g.WellFormed) {a : Automaton} (built : g.toAutomaton = .ok a)
    (word : List Char) :
    g.normalForm.decideMembership word = .ok (a.accepts word) ∧
      a.accepts word = a.determinize.accepts word := by
  obtain ⟨linear, rfl⟩ := toAutomaton_eq_ok_iff.1 built
  constructor
  · exact decideMembership_normalForm wf (accepts_linearAutomaton_iff wf linear)
  · exact (Automaton.accepts_determinize (wellFormed_linearAutomaton wf) word).symm

/-- The crowded grammar, whose nonterminals are named like additional states, has an automaton; all
three ways accept `abb` and refuse `ab`. -/
theorem membership_agrees_crowded :
    crowded.WellFormed ∧
      ∃ a, crowded.toAutomaton = .ok a ∧
        (crowded.normalForm.decideMembership ['a', 'b', 'b'] = .ok true ∧
          a.determinize.accepts ['a', 'b', 'b'] = true) ∧
        crowded.normalForm.decideMembership ['a', 'b'] = .ok false ∧
          a.determinize.accepts ['a', 'b'] = false := by
  have wf : crowded.WellFormed := by decide +kernel
  have built : crowded.toAutomaton = .ok crowded.linearAutomaton :=
    toAutomaton_of_rightLinear (by decide +kernel)
  obtain ⟨chart, subsets⟩ := membership_agrees wf built ['a', 'b', 'b']
  obtain ⟨chart', subsets'⟩ := membership_agrees wf built ['a', 'b']
  have accepted : crowded.linearAutomaton.accepts ['a', 'b', 'b'] = true := by decide +kernel
  have refused : crowded.linearAutomaton.accepts ['a', 'b'] = false := by decide +kernel
  rw [accepted] at chart subsets
  rw [refused] at chart' subsets'
  exact ⟨wf, _, built, ⟨chart, subsets.symm⟩, chart', subsets'.symm⟩

end FormalLanguages.Grammar
