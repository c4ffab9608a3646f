import FormalLanguages.Proofs.Grammar.Chart
import FormalLanguages.Proofs.Grammar.FixedPoints
import FormalLanguages.Proofs.Sampling.Derivation

/-! # What normal form looks like

The productions of a normal form are of three kinds, and its start vanishes just when the empty word
was derived before (`normalForm_shape`). It has productions just when there are words to derive; then
every nonterminal is useful and no derivation gets stuck, and otherwise nothing but the start is left
(`normalForm_useful`). -/

namespace FormalLanguages.Grammar

variable {g : Grammar}

/-! ## The shape of productions -/

/-- The letters stay the same on the way to normal form. -/
@[simp] theorem terminals_normalForm : g.normalForm.terminals = g.terminals := by
  rw [normalForm_eq, terminals_binarized, normalCore, terminals_reachablePart,
    terminals_productivePart, terminals_reachablePart, terminals_withoutUnits,
    terminals_withoutErasing, terminals_withFreshStart]

/-- The start yields the same words in normal form. -/
theorem yields_start_normalForm_iff (wf : g.WellFormed) {word : List Char} :
    g.normalForm.Yields [.nonterminal g.normalForm.start] word ↔
      g.Yields [.nonterminal g.start] word := by
  rw [← language_iff, ← language_iff, normalForm_eq,
    language_binarized (unitFree_normalCore wf).wellFormed]
  exact language_normalCore wf

/-- In normal form there are three kinds of productions. -/
theorem IsNormal.kinds (normal : g.IsNormal) {p : Production} (mem : p ∈ g.productions) :
    (∃ c, p.rhs = [.terminal c]) ∨ (∃ m n, p.rhs = [.nonterminal m, .nonterminal n]) ∨
      p = ⟨g.start, []⟩ := by
  rcases conforms_iff.1 (normal p mem) with ⟨empty, start, _⟩ | isLetter | isPair
  · obtain ⟨lhs, rhs⟩ := p
    cases empty
    cases start
    exact .inr (.inr rfl)
  · exact .inl isLetter
  · exact .inr (.inl isPair)

/-- **The shape of a normal form**: no production violates the form, the start occurs on no right-hand
side, every right-hand side is a letter, two nonterminals, or the empty one of the start, the start
has the empty one just when the empty word was derived before, and the letters are the same. -/
theorem normalForm_shape (wf : g.WellFormed) :
    g.normalForm.firstNonconforming = none ∧
      g.normalForm.occursOnRight g.normalForm.start = false ∧
      (∀ p, p ∈ g.normalForm.productions →
        (∃ c, p.rhs = [.terminal c]) ∨ (∃ m n, p.rhs = [.nonterminal m, .nonterminal n]) ∨
          p = ⟨g.normalForm.start, []⟩) ∧
      (⟨g.normalForm.start, []⟩ ∈ g.normalForm.productions ↔ g.Language []) ∧
      g.normalForm.terminals = g.terminals := by
  have outcome := normalized_normalForm wf
  refine ⟨firstNonconforming_eq_none_iff.2 outcome.normal, startIsolated_iff.1 outcome.isolated,
    fun p mem => outcome.normal.kinds mem, ?_, terminals_normalForm⟩
  rw [← outcome.normal.yields_nil_iff, language_iff]
  exact yields_start_normalForm_iff wf

/-- The start of the entangled grammar vanishes and occurs on a right-hand side; in normal form a
fresh start vanishes and occurs on none. -/
theorem normalForm_shape_entangled :
    entangled.WellFormed ∧ entangled.occursOnRight entangled.start = true ∧
      entangled.normalForm.occursOnRight entangled.normalForm.start = false ∧
      ⟨entangled.normalForm.start, []⟩ ∈ entangled.normalForm.productions := by
  have wf : entangled.WellFormed := by decide +kernel
  obtain ⟨_, isolated, _, vanishes, _⟩ := normalForm_shape wf
  refine ⟨wf, by decide +kernel, isolated, vanishes.2 (language_iff.2 ?_)⟩
  exact yields_nonterminal_iff.2 ⟨[], by decide +kernel, .nil⟩

/-! ## Useful nonterminals and dead ends -/

/-- A grammar has rules when it has a production. -/
theorem hasRules_iff : g.hasRules = true ↔ ∃ p, p ∈ g.productions := by
  rw [hasRules, Bool.not_eq_true', SortedSet.isEmpty_eq_false_iff]

/-- A productive nonterminal has an alternative. -/
theorem Productive.exists_mem {name : String} (h : g.Productive name) :
    ∃ rhs, ⟨name, rhs⟩ ∈ g.productions := by
  obtain ⟨word, d⟩ := productive_iff.1 h
  obtain ⟨rhs, mem, _⟩ := yields_nonterminal_iff.1 d
  exact ⟨rhs, mem⟩

/-- A trimmed grammar with rules has useful nonterminals only. -/
theorem Trimmed.useful (trimmed : g.Trimmed) (some : g.hasRules = true) {n : String}
    (declared : n ∈ g.nonterminals) : g.Reachable n ∧ g.Productive n := by
  rcases trimmed with useful | ⟨none, _⟩
  · exact useful n declared
  · obtain ⟨p, mem⟩ := hasRules_iff.1 some
    rw [none] at mem
    exact absurd mem (SortedSet.not_mem_empty p)

/-- A trimmed grammar has rules just when it derives some word. -/
theorem Trimmed.hasRules_iff_exists_word (wf : g.WellFormed) (trimmed : g.Trimmed) :
    g.hasRules = true ↔ ∃ word, g.Language word := by
  constructor
  · intro some
    exact (trimmed.useful some wf.start_mem).2
  · intro productive
    obtain ⟨rhs, mem⟩ := Productive.exists_mem productive
    exact hasRules_iff.2 ⟨_, mem⟩

/-- A trimmed grammar without rules declares its start only. -/
theorem Trimmed.nonterminals_eq (wf : g.WellFormed) (trimmed : g.Trimmed)
    (none : g.hasRules = false) : g.nonterminals = {g.start} := by
  rcases trimmed with useful | ⟨_, only⟩
  · obtain ⟨rhs, mem⟩ := (useful g.start wf.start_mem).2.exists_mem
    rw [hasRules_iff.2 ⟨_, mem⟩] at none
    cases none
  · exact only

/-- **Where all nonterminals are productive nothing gets stuck** on the way from the start. -/
theorem not_stuck_of_productive (wf : g.WellFormed)
    (all : ∀ n, n ∈ g.nonterminals → g.Productive n) {form : Form}
    (d : g.Derives [.nonterminal g.start] form) (n : String) : ¬ g.Stuck form n := by
  intro stuck
  have reachable : g.Reachable n := ⟨form, d, stuck.mem⟩
  have declared := wf.declared_of_mem_reachable (mem_reachable_iff.2 reachable)
  obtain ⟨rhs, mem⟩ := (all n declared).exists_mem
  exact stuck.2 rhs mem

/-- **A normal form has no useless nonterminals**: it has rules just when there are words to derive.
If it has rules, all its nonterminals are useful, no form that its start derives is stuck, and so no
random derivation meets a dead end, whatever its source draws and whatever its budget is; without
rules it declares its start only. -/
theorem normalForm_useful (wf : g.WellFormed) :
    (g.normalForm.hasRules = true ↔ ∃ word, g.Language word) ∧
      (g.normalForm.hasRules = true →
        (∀ n, n ∈ g.normalForm.nonterminals →
          g.normalForm.Reachable n ∧ g.normalForm.Productive n) ∧
        (∀ form, g.normalForm.Derives [.nonterminal g.normalForm.start] form →
          ∀ n, ¬ g.normalForm.Stuck form n) ∧
        ∀ source budget place n,
          (g.normalForm.randomDerivation source budget).1 ≠ .error ⟨place, .deadEnd n⟩) ∧
      (g.normalForm.hasRules = false → g.normalForm.nonterminals = {g.normalForm.start}) := by
  have wf' := wellFormed_normalForm wf
  have trimmed := (normalized_normalForm wf).trimmed
  refine ⟨?_, fun some => ?_, trimmed.nonterminals_eq wf'⟩
  · rw [trimmed.hasRules_iff_exists_word wf']
    refine exists_congr fun word => ?_
    rw [language_iff, language_iff]
    exact yields_start_normalForm_iff wf
  · have useful : ∀ n, n ∈ g.normalForm.nonterminals →
        g.normalForm.Reachable n ∧ g.normalForm.Productive n :=
      fun n declared => trimmed.useful some declared
    have moving : ∀ form, g.normalForm.Derives [.nonterminal g.normalForm.start] form →
        ∀ n, ¬ g.normalForm.Stuck form n :=
      fun form d => not_stuck_of_productive wf' (fun n declared => (useful n declared).2) d
    exact ⟨useful, moving, randomDerivationFrom_ne_deadEnd moving⟩

/-- A grammar in which every derivation goes on forever. -/
def endless : Grammar where
  start := "S"
  nonterminals := .ofList ["S", "A"]
  terminals := .ofList ['a']
  productions := .ofList [
    ⟨"S", [.nonterminal "A", .nonterminal "A"]⟩, ⟨"A", [.terminal 'a', .nonterminal "S"]⟩]

/-- The entangled grammar keeps rules in normal form and never meets a dead end; the endless one loses
all its rules, and all its nonterminals but the start. -/
theorem normalForm_useful_entangled :
    entangled.WellFormed ∧ entangled.normalForm.hasRules = true ∧
      (∀ source budget place n,
        (entangled.normalForm.randomDerivation source budget).1 ≠ .error ⟨place, .deadEnd n⟩) ∧
      endless.WellFormed ∧ endless.hasRules = true ∧
      endless.normalForm.nonterminals = {endless.normalForm.start} := by
  have wf : entangled.WellFormed := by decide +kernel
  have wf' : endless.WellFormed := by decide +kernel
  have vanishes : entangled.Language [] :=
    language_iff.2 (yields_nonterminal_iff.2 ⟨[], by decide +kernel, .nil⟩)
  obtain ⟨words, running, _⟩ := normalForm_useful wf
  obtain ⟨_, _, only⟩ := normalForm_useful wf'
  have rules := words.2 ⟨[], vanishes⟩
  exact ⟨wf, rules, (running rules).2.2, wf', by decide +kernel, only (by decide +kernel)⟩

end FormalLanguages.Grammar
