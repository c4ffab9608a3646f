import FormalLanguages.Proofs.Grammar.NormalShape

/-! # Bringing a grammar into normal form

`Grammar.normalForm` first frees a grammar of empty right-hand sides, units and useless nonterminals
(`Grammar.normalCore`) and then shortens its right-hand sides. The language stays the same all the
way (`language_normalForm`), and the result is in normal form, with an isolated start and without
useless nonterminals. -/

namespace FormalLanguages.Grammar

variable {g : Grammar}

/-- A grammar before its right-hand sides are shortened. -/
def normalCore (g : Grammar) : Grammar :=
  g.withFreshStart.withoutErasing.withoutUnits.reachablePart.productivePart.reachablePart

theorem normalForm_eq (g : Grammar) : g.normalForm = g.normalCore.binarized := rfl

/-- Removing units after empty right-hand sides frees a grammar of both. -/
theorem unitFree_withoutUnits_withoutErasing (wf : g.WellFormed) :
    g.withFreshStart.withoutErasing.withoutUnits.UnitFree :=
  unitFree_withoutUnits (wellFormed_withoutErasing (wellFormed_withFreshStart wf))
    (startIsolated_withoutErasing (startIsolated_withFreshStart wf))

/-- Before it is shortened the grammar is free of units. -/
theorem unitFree_normalCore (wf : g.WellFormed) : g.normalCore.UnitFree :=
  (unitFree_withoutUnits_withoutErasing wf).reachablePart.productivePart.reachablePart

/-- Before it is shortened the grammar is trimmed. -/
theorem trimmed_normalCore (wf : g.WellFormed) : g.normalCore.Trimmed :=
  trimmed_reachablePart_productivePart
    (unitFree_withoutUnits_withoutErasing wf).reachablePart.wellFormed

/-- Removing units after empty right-hand sides keeps the language. -/
theorem language_withoutUnits_withoutErasing (wf : g.WellFormed) {word : List Char} :
    g.withFreshStart.withoutErasing.withoutUnits.Language word ↔ g.Language word := by
  have wf' := wellFormed_withFreshStart wf
  have isolated := startIsolated_withFreshStart wf
  calc g.withFreshStart.withoutErasing.withoutUnits.Language word
      ↔ g.withFreshStart.withoutErasing.Language word := by
        rw [language_iff, language_iff]
        exact yields_withoutUnits_iff (wellFormed_withoutErasing wf').lhs_mem
          (vanishesAtStart_withoutErasing isolated)
    _ ↔ g.withFreshStart.Language word := language_withoutErasing
    _ ↔ g.Language word := language_withFreshStart wf

/-- Before it is shortened the grammar has the original language. -/
theorem language_normalCore (wf : g.WellFormed) {word : List Char} :
    g.normalCore.Language word ↔ g.Language word := by
  rw [normalCore, language_reachablePart, language_productivePart, language_reachablePart]
  exact language_withoutUnits_withoutErasing wf

/-- **Normal form keeps the language**: from its start a well-formed grammar derives the same words,
the empty one included, before and after it is brought into normal form. -/
theorem language_normalForm (wf : g.WellFormed) (word : List Char) :
    g.Language word ↔ g.normalForm.Language word := by
  rw [normalForm_eq]
  calc g.Language word
      ↔ g.normalCore.Language word := (language_normalCore wf).symm
    _ ↔ g.normalCore.binarized.Language word :=
        (language_binarized (unitFree_normalCore wf).wellFormed).symm

/-- A grammar with everything that gets in the way: a start that vanishes and occurs on the right, a
cycle of units, a useless nonterminal, and names like those of new nonterminals. -/
def entangled : Grammar where
  start := "S"
  nonterminals := .ofList ["S", "S'", "X1", "T_a"]
  terminals := .ofList ['a', 'b']
  productions := .ofList [
    ⟨"S", []⟩, ⟨"S", [.terminal 'a', .nonterminal "S", .nonterminal "X1"]⟩,
    ⟨"X1", [.nonterminal "T_a"]⟩, ⟨"T_a", [.nonterminal "X1"]⟩, ⟨"T_a", [.terminal 'b']⟩,
    ⟨"S'", [.nonterminal "S'", .nonterminal "S"]⟩]

/-- The entangled grammar derives `ab`, and still does in normal form. -/
theorem language_normalForm_entangled :
    entangled.WellFormed ∧ entangled.Language ['a', 'b'] ∧
      entangled.normalForm.Language ['a', 'b'] := by
  have wf : entangled.WellFormed := by decide +kernel
  have renames : ⟨"X1", [.nonterminal "T_a"]⟩ ∈ entangled.productions := by decide +kernel
  have letter : ⟨"T_a", [.terminal 'b']⟩ ∈ entangled.productions := by decide +kernel
  have vanishes : ⟨"S", []⟩ ∈ entangled.productions := by decide +kernel
  have grows : ⟨"S", [.terminal 'a', .nonterminal "S", .nonterminal "X1"]⟩ ∈
      entangled.productions := by decide +kernel
  have b : entangled.Yields [.nonterminal "X1"] ['b'] :=
    .expand renames (.expand letter (.letter .nil) .nil) .nil
  have ab : entangled.Language ['a', 'b'] :=
    language_iff.2 (.expand grows (.letter (.expand vanishes .nil b)) .nil)
  exact ⟨wf, ab, (language_normalForm wf ['a', 'b']).1 ab⟩

end FormalLanguages.Grammar
