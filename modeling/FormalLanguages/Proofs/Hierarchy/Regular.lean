import FormalLanguages.Proofs.Automaton.Reversal
import FormalLanguages.Proofs.Grammar.Reversal
import FormalLanguages.Proofs.Hierarchy.ContextFree
import FormalLanguages.Proofs.RightLinear.ToAutomaton

/-! # Regular grammars have automata

A right-linear grammar has an automaton by construction. The reversed grammar of a left-linear one
is right-linear, so a left-linear grammar has an automaton that reads words backwards. A grammar
that is classified as regular is one or the other (`Grammar.exists_automaton_of_regular`). -/

namespace FormalLanguages

/-- Left-linear forms are right-linear when they are reversed. -/
theorem Form.LeftLinear.reverse {form : Form} (h : LeftLinear form) : RightLinear form.reverse := by
  cases h with
  | empty => exact .empty
  | letter c => exact .letter c
  | linked n c => exact .linked c n

namespace Grammar

variable {g : Grammar}

/-- A left-linear grammar is right-linear when it is reversed. -/
theorem LeftLinear.rightLinear_reversed (linear : g.LeftLinear) : g.reversed.RightLinear := by
  intro p mem
  have turned := (linear p.reversed (mem_productions_reversed.1 mem)).reverse
  rwa [Production.reversed, List.reverse_reverse] at turned

/-- The automaton of a left-linear grammar: it reads words backwards by the reversed productions. -/
def leftLinearAutomaton (g : Grammar) : Automaton := g.reversed.linearAutomaton.reversed

/-- The automaton of a well-formed left-linear grammar is well formed. -/
theorem wellFormed_leftLinearAutomaton (wf : g.WellFormed) : g.leftLinearAutomaton.WellFormed :=
  Automaton.wellFormed_reversed (wellFormed_linearAutomaton (wellFormed_reversed wf))

/-- The automaton of a left-linear grammar accepts its language. -/
theorem accepts_leftLinearAutomaton_iff (wf : g.WellFormed) (linear : g.LeftLinear)
    {word : List Char} : g.leftLinearAutomaton.accepts word = true ↔ g.Language word := by
  have wf' := wellFormed_reversed wf
  calc g.leftLinearAutomaton.accepts word = true
      ↔ g.reversed.linearAutomaton.accepts word.reverse = true := by
        rw [leftLinearAutomaton, Automaton.accepts_reversed (wellFormed_linearAutomaton wf')]
    _ ↔ g.reversed.Language word.reverse :=
        accepts_linearAutomaton_iff wf' linear.rightLinear_reversed
    _ ↔ g.Language word := language_reversed

/-- **Grammars that are classified as regular have automata**: for a well-formed grammar of type 3
some well-formed automaton accepts exactly the words that it derives, whichever end its nonterminals
stand at and whether or not its start vanishes. -/
theorem exists_automaton_of_regular (wf : g.WellFormed) (regular : g.classify = .ok .regular) :
    ∃ a : Automaton, a.WellFormed ∧ ∀ word, a.accepts word = true ↔ g.Language word := by
  rcases ((classify_eq_regular_iff wf).1 regular).linear with right | left
  · exact ⟨g.linearAutomaton, wellFormed_linearAutomaton wf,
      fun _ => accepts_linearAutomaton_iff wf right⟩
  · exact ⟨g.leftLinearAutomaton, wellFormed_leftLinearAutomaton wf,
      fun _ => accepts_leftLinearAutomaton_iff wf left⟩

/-- A left-linear grammar whose start vanishes: its words are the empty one and those over `a` that
end in a `b`. -/
def trailing : Grammar where
  start := "S"
  nonterminals := .ofList ["S", "A"]
  terminals := .ofList ['a', 'b']
  productions := .ofList [
    ⟨"S", []⟩, ⟨"S", [.terminal 'b']⟩, ⟨"S", [.nonterminal "A", .terminal 'b']⟩,
    ⟨"A", [.terminal 'a']⟩, ⟨"A", [.nonterminal "A", .terminal 'a']⟩]

/-- The trailing grammar is regular, though it is not right-linear, and some automaton accepts
exactly its words, the empty one and `aab` among them. -/
theorem exists_automaton_of_regular_trailing :
    trailing.WellFormed ∧ trailing.classify = .ok .regular ∧ ¬ trailing.RightLinear ∧
      ∃ a : Automaton, a.WellFormed ∧ (∀ word, a.accepts word = true ↔ trailing.Language word) ∧
        a.accepts [] = true ∧ a.accepts ['a', 'a', 'b'] = true := by
  have wf : trailing.WellFormed := by decide +kernel
  have regular : trailing.classify = .ok .regular := by rfl
  obtain ⟨a, wfa, accepts⟩ := exists_automaton_of_regular wf regular
  have derives : trailing.Language ['a', 'a', 'b'] := by
    have a : trailing.Yields [.nonterminal "A"] ['a'] :=
      yields_nonterminal_iff.2 ⟨[.terminal 'a'], by decide +kernel, .letter .nil⟩
    have aa : trailing.Yields [.nonterminal "A"] ['a', 'a'] :=
      yields_nonterminal_iff.2 ⟨_, by decide +kernel, a.append (.letter .nil)⟩
    exact language_iff.2 (yields_nonterminal_iff.2 ⟨_, by decide +kernel, aa.append (.letter .nil)⟩)
  have vanishes : trailing.Language [] :=
    language_iff.2 (yields_nonterminal_iff.2 ⟨[], by decide +kernel, .nil⟩)
  exact ⟨wf, regular, by decide +kernel, a, wfa, accepts, (accepts []).2 vanishes,
    (accepts _).2 derives⟩

end Grammar

end FormalLanguages
