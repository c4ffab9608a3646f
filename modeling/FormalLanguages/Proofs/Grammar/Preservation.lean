import FormalLanguages.Proofs.Grammar.Normalization

/-! # What the transformations achieve one by one

On the way to normal form each transformation works on what the ones before it leave, but most of what
it does it does to any grammar. Removing empty right-hand sides asks nothing of the start
(`withoutErasing_correct`), removing units asks that only the start vanishes (`withoutUnits_correct`),
dropping useless nonterminals asks nothing (`reachablePart_correct`, `productivePart_correct`), and
shortening right-hand sides asks for complete declarations only (`binarized_correct`). Not only
the start but every nonterminal that is left keeps its words, except that without empty right-hand
sides only the start derives the empty one. -/

namespace FormalLanguages.Grammar

variable {g : Grammar}

/-! ## The entangled grammar -/

/-- A chain of units leads to a letter. -/
theorem yields_entangled_letter : entangled.Yields [.nonterminal "X1"] ['b'] := by
  have renames : ⟨"X1", [.nonterminal "T_a"]⟩ ∈ entangled.productions := by decide +kernel
  have letter : ⟨"T_a", [.terminal 'b']⟩ ∈ entangled.productions := by decide +kernel
  exact .expand renames (.expand letter (.letter .nil) .nil) .nil

/-- The start vanishes. -/
theorem yields_entangled_nil : entangled.Yields [.nonterminal "S"] [] := by
  have vanishes : ⟨"S", []⟩ ∈ entangled.productions := by decide +kernel
  exact .expand vanishes .nil .nil

/-- The start vanishes in the middle of its longer alternative. -/
theorem yields_entangled_word : entangled.Yields [.nonterminal "S"] ['a', 'b'] := by
  have grows : ⟨"S", [.terminal 'a', .nonterminal "S", .nonterminal "X1"]⟩ ∈
      entangled.productions := by decide +kernel
  exact .expand grows (.letter (yields_entangled_nil.append yields_entangled_letter)) .nil

/-- Only the start vanishes at once, and nothing is renamed to it. -/
theorem vanishesAtStart_entangled : entangled.VanishesAtStart where
  eq_start_of_empty name mem := by
    have empties : ∀ p, p ∈ entangled.productions → p.rhs = [] → p.lhs = entangled.start := by
      decide +kernel
    exact empties ⟨name, []⟩ mem rfl
  eq_start_of_unit _ name mem := by
    have units : ∀ p, p ∈ entangled.productions → p.rhs ≠ [.nonterminal entangled.start] := by
      decide +kernel
    exact absurd rfl (units ⟨name, [.nonterminal entangled.start]⟩ mem)

/-! ## Without empty right-hand sides -/

/-- **Removing empty right-hand sides** works for any grammar, also when its start vanishes and occurs
on right-hand sides. The empty right-hand side is left to the start alone, and just when it derives the
empty word. No nonterminal is rewritten into itself. Every nonterminal generates the same non-empty
words as before, and the language is the same, the empty word included. -/
theorem withoutErasing_correct (g : Grammar) :
    (∀ name, ⟨name, []⟩ ∈ g.withoutErasing.productions ↔ name = g.start ∧ g.Language []) ∧
      (∀ name, ⟨name, [.nonterminal name]⟩ ∉ g.withoutErasing.productions) ∧
      (∀ name word, word ≠ [] → (g.Generates name word ↔ g.withoutErasing.Generates name word)) ∧
      ∀ word, g.Language word ↔ g.withoutErasing.Language word := by
  refine ⟨fun name => ?_, self_not_mem_withoutErasing, fun name word nonempty => ?_, fun word => ?_⟩
  · rw [nil_mem_withoutErasing_iff, mem_nullable_iff, language_iff]
  · rw [generates_iff, generates_iff, yields_withoutErasing_iff nonempty]
  · exact language_withoutErasing.symm

/-- The start of the entangled grammar vanishes and occurs on right-hand sides, also where only a
rewriting of a nonterminal into itself is left when it vanishes. -/
theorem withoutErasing_entangled :
    entangled.Language [] ∧ ['a', 'b'] ≠ [] ∧ entangled.Generates "S" ['a', 'b'] ∧
      ⟨"S'", [.nonterminal "S'", .nonterminal "S"]⟩ ∈ entangled.productions ∧
      ⟨"S", []⟩ ∈ entangled.withoutErasing.productions ∧
      ⟨"S'", [.nonterminal "S'"]⟩ ∉ entangled.withoutErasing.productions ∧
      entangled.withoutErasing.Generates "S" ['a', 'b'] ∧ entangled.withoutErasing.Language [] := by
  have vanishes : entangled.Language [] := language_iff.2 yields_entangled_nil
  have ab : entangled.Generates "S" ['a', 'b'] := generates_iff.2 yields_entangled_word
  obtain ⟨empty, noSelf, words, language⟩ := withoutErasing_correct entangled
  exact ⟨vanishes, by decide, ab, by decide +kernel, (empty "S").2 ⟨rfl, vanishes⟩, noSelf "S'",
    (words "S" _ (by decide)).1 ab, (language []).1 vanishes⟩

/-! ## Without unit productions -/

/-- **Removing unit productions** leaves none in any grammar. Every nonterminal generates the same words
as before if no other nonterminal than the start vanishes at once, and none is renamed to a start that
does. The transformations that come first on the way to normal form lead to such grammars. -/
theorem withoutUnits_correct (wf : g.WellFormed) :
    (∀ name n, ⟨name, [.nonterminal n]⟩ ∉ g.withoutUnits.productions) ∧
      (g.VanishesAtStart → ∀ name word,
        g.Generates name word ↔ g.withoutUnits.Generates name word) ∧
      g.withFreshStart.withoutErasing.WellFormed ∧
      g.withFreshStart.withoutErasing.VanishesAtStart := by
  refine ⟨unit_not_mem_withoutUnits, fun vanishing name word => ?_, ?_, ?_⟩
  -- right-hand sides that are empty are taken over by the start only, and by the condition no word
  -- of another nonterminal needs them
  · rw [generates_iff, generates_iff, yields_withoutUnits_iff wf.lhs_mem vanishing]
  · exact wellFormed_withoutErasing (wellFormed_withFreshStart wf)
  · exact vanishesAtStart_withoutErasing (startIsolated_withFreshStart wf)

/-- Two nonterminals of the entangled grammar are renamed to each other. -/
theorem withoutUnits_entangled :
    entangled.WellFormed ∧ entangled.VanishesAtStart ∧
      ⟨"X1", [.nonterminal "T_a"]⟩ ∈ entangled.productions ∧
      ⟨"T_a", [.nonterminal "X1"]⟩ ∈ entangled.productions ∧
      ⟨"X1", [.nonterminal "T_a"]⟩ ∉ entangled.withoutUnits.productions ∧
      entangled.Generates "X1" ['b'] ∧ entangled.withoutUnits.Generates "X1" ['b'] := by
  have wf : entangled.WellFormed := by decide +kernel
  have b : entangled.Generates "X1" ['b'] := generates_iff.2 yields_entangled_letter
  obtain ⟨noUnit, words, _⟩ := withoutUnits_correct wf
  exact ⟨wf, vanishesAtStart_entangled, by decide +kernel, by decide +kernel, noUnit _ _, b,
    (words vanishesAtStart_entangled "X1" ['b']).1 b⟩

/-! ## Without unreachable nonterminals -/

/-- A reachable nonterminal keeps its alternatives. -/
theorem alternatives_reachablePart {name : String} (reached : g.Reachable name) :
    g.reachablePart.alternatives name = g.alternatives name := by
  have inside : name ∈ g.reachable := mem_reachable_iff.2 reached
  ext rhs
  rw [mem_alternatives, mem_alternatives, mem_reachablePart]
  exact and_iff_left inside

/-- **Dropping unreachable nonterminals** keeps just what the start can reach. The nonterminals that are
left are those that occur in some form derived from the start. Each of them keeps its alternatives, no
other nonterminal is rewritten, and so each generates the same words as before. -/
theorem reachablePart_correct (g : Grammar) :
    g.reachablePart.start = g.start ∧
      (∀ name, name ∈ g.reachablePart.nonterminals ↔ g.Reachable name) ∧
      (∀ name, g.Reachable name → g.reachablePart.alternatives name = g.alternatives name) ∧
      (∀ name, name ∈ g.reachablePart.leftSides → g.Reachable name) ∧
      ∀ name, g.Reachable name → ∀ word,
        g.Generates name word ↔ g.reachablePart.Generates name word := by
  refine ⟨rfl, fun _ => mem_reachable_iff, fun _ => alternatives_reachablePart,
    fun name left => ?_, fun name reached word => ?_⟩
  · obtain ⟨rhs, mem⟩ := mem_leftSides.1 left
    exact mem_reachable_iff.1 (mem_reachablePart.1 mem).2
  -- a derivation from a reachable nonterminal meets reachable nonterminals only
  · have inside : name ∈ g.reachable := mem_reachable_iff.2 reached
    rw [generates_iff, generates_iff, yields_nonterminal_reachablePart_iff inside]

/-- In the entangled grammar the start reaches the cycle of units, but not the nonterminal that is
rewritten into a form with itself. -/
theorem reachablePart_entangled :
    entangled.Reachable "X1" ∧ ¬ entangled.Reachable "S'" ∧ "S'" ∈ entangled.nonterminals ∧
      "S'" ∉ entangled.reachablePart.nonterminals ∧ "S'" ∉ entangled.reachablePart.leftSides ∧
      entangled.reachablePart.alternatives "X1" = {[.nonterminal "T_a"]} ∧
      entangled.Generates "X1" ['b'] ∧ entangled.reachablePart.Generates "X1" ['b'] := by
  obtain ⟨_, names, alternatives, left, words⟩ := reachablePart_correct entangled
  have reached : entangled.Reachable "X1" := (names "X1").1 (by decide +kernel)
  have apart : ¬ entangled.Reachable "S'" := fun h => absurd ((names "S'").2 h) (by decide +kernel)
  have b : entangled.Generates "X1" ['b'] := generates_iff.2 yields_entangled_letter
  refine ⟨reached, apart, by decide +kernel, fun mem => apart ((names "S'").1 mem),
    fun mem => apart (left "S'" mem), ?_, b, (words "X1" reached ['b']).1 b⟩
  rw [alternatives "X1" reached]
  decide +kernel

/-! ## Without unproductive nonterminals -/

/-- **Dropping unproductive nonterminals** keeps just the productive part. The nonterminals that are left
are those that generate some word, and the start; the productions that are left are those in which
all nonterminals generate some word. What was productive stays so, since every nonterminal generates the
same words as before. If the language is empty the start loses its alternatives, and no right-hand
side mentions it any more. -/
theorem productivePart_correct (g : Grammar) :
    g.productivePart.start = g.start ∧
      (∀ name, name ∈ g.productivePart.nonterminals ↔ g.Productive name ∨ name = g.start) ∧
      (∀ p, p ∈ g.productivePart.productions ↔ p ∈ g.productions ∧ g.Productive p.lhs ∧
        ∀ n, .nonterminal n ∈ p.rhs → g.Productive n) ∧
      (∀ name, g.Productive name → g.productivePart.Productive name) ∧
      (∀ name word, g.Generates name word ↔ g.productivePart.Generates name word) ∧
      ((∀ word, ¬ g.Language word) →
        (∀ rhs, ⟨g.start, rhs⟩ ∉ g.productivePart.productions) ∧
          ∀ p, p ∈ g.productivePart.productions → .nonterminal g.start ∉ p.rhs) := by
  have words : ∀ name word, g.Generates name word ↔ g.productivePart.Generates name word := by
    intro name word
    rw [generates_iff, generates_iff, yields_productivePart_iff]
  have kept : ∀ p, p ∈ g.productivePart.productions ↔ p ∈ g.productions ∧ g.Productive p.lhs ∧
      ∀ n, .nonterminal n ∈ p.rhs → g.Productive n := by
    intro p
    simp only [mem_productivePart, mem_productive_iff]
  refine ⟨rfl, fun name => ?_, kept, fun name productive => ?_, words, fun empty => ?_⟩
  · rw [mem_nonterminals_productivePart, mem_productive_iff, or_comm]
  · obtain ⟨word, generated⟩ := productive
    exact ⟨word, (words name word).1 generated⟩
  -- a production that has to do with the start would make the start productive
  · have unproductive : ¬ g.Productive g.start := by
      rintro ⟨word, generated⟩
      exact empty word generated
    exact ⟨fun rhs mem => unproductive ((kept _).1 mem).2.1,
      fun p mem occurs => unproductive (((kept p).1 mem).2.2 _ occurs)⟩

/-- A grammar whose start goes on for ever, while another nonterminal leads to a word or to the
start. -/
def barren : Grammar where
  start := "S"
  nonterminals := .ofList ["S", "A", "B"]
  terminals := .ofList ['a']
  productions := .ofList [
    ⟨"S", [.terminal 'a', .nonterminal "S"]⟩, ⟨"S", [.nonterminal "A", .nonterminal "B"]⟩,
    ⟨"A", [.terminal 'a']⟩, ⟨"A", [.nonterminal "S"]⟩, ⟨"B", [.nonterminal "B"]⟩]

/-- The barren grammar keeps its start without any alternative, and the nonterminal that leads to a
word without the alternative that leads to the start. -/
theorem productivePart_barren :
    (∀ word, ¬ barren.Language word) ∧ barren.Productive "A" ∧
      "S" ∈ barren.productivePart.nonterminals ∧ "B" ∉ barren.productivePart.nonterminals ∧
      ⟨"A", [.nonterminal "S"]⟩ ∈ barren.productions ∧
      ⟨"A", [.nonterminal "S"]⟩ ∉ barren.productivePart.productions ∧
      (∀ rhs, ⟨"S", rhs⟩ ∉ barren.productivePart.productions) ∧
      barren.productivePart.Productive "A" ∧ barren.productivePart.Generates "A" ['a'] := by
  obtain ⟨_, names, _, productive, words, start⟩ := productivePart_correct barren
  have letter : ⟨"A", [.terminal 'a']⟩ ∈ barren.productions := by decide +kernel
  have a : barren.Generates "A" ['a'] := generates_iff.2 (.expand letter (.letter .nil) .nil)
  have empty : ∀ word, ¬ barren.Language word := fun word generated => by
    have found : "S" ∈ barren.productive := mem_productive_iff.2 ⟨word, generated⟩
    exact absurd found (by decide +kernel)
  obtain ⟨noRule, noMention⟩ := start empty
  exact ⟨empty, ⟨_, a⟩, (names "S").2 (.inr rfl), by decide +kernel, by decide +kernel,
    fun mem => noMention _ mem List.mem_cons_self, noRule, productive "A" ⟨_, a⟩,
    (words "A" ['a']).1 a⟩

/-! ## With short right-hand sides -/

/-- **Shortening right-hand sides** works for any well-formed grammar. At most two symbols are left, and
two only if both are nonterminals. Every nonterminal that was declared generates the same words as
before. -/
theorem binarized_correct (wf : g.WellFormed) :
    (∀ p, p ∈ g.binarized.productions → p.rhs.length ≤ 2 ∧
        (p.rhs.length = 2 → ∃ m n, p.rhs = [.nonterminal m, .nonterminal n])) ∧
      ∀ name, name ∈ g.nonterminals → ∀ word,
        g.Generates name word ↔ g.binarized.Generates name word := by
  refine ⟨fun p mem => rhs_shape_of_mem_binarized mem, fun name declared word => ?_⟩
  rw [generates_iff, generates_iff, yields_binarized_iff wf (Form.forall_names_singleton declared)]

/-- In the entangled grammar the names that a proxy and a chain nonterminal would have are taken. -/
theorem binarized_entangled :
    entangled.WellFormed ∧ "X1" ∈ entangled.nonterminals ∧ "S" ∈ entangled.nonterminals ∧
      ⟨"S", [.nonterminal "T_a'", .nonterminal "X2"]⟩ ∈ entangled.binarized.productions ∧
      entangled.Generates "S" ['a', 'b'] ∧ entangled.binarized.Generates "S" ['a', 'b'] ∧
      entangled.binarized.Generates "X1" ['b'] := by
  have wf : entangled.WellFormed := by decide +kernel
  have ab : entangled.Generates "S" ['a', 'b'] := generates_iff.2 yields_entangled_word
  have b : entangled.Generates "X1" ['b'] := generates_iff.2 yields_entangled_letter
  have chain : "X1" ∈ entangled.nonterminals := by decide +kernel
  have start : "S" ∈ entangled.nonterminals := by decide +kernel
  obtain ⟨_, words⟩ := binarized_correct wf
  exact ⟨wf, chain, start, by decide +kernel, ab, (words "S" start _).1 ab,
    (words "X1" chain _).1 b⟩

end FormalLanguages.Grammar
