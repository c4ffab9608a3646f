import FormalLanguages.Proofs.Grammar.FreshStart
import FormalLanguages.Proofs.Hierarchy.Classification
import FormalLanguages.Proofs.RightLinear.Yield

/-! # Where context-free grammars stand in the hierarchy

A well-formed context-free grammar is always classified, as type 2 or type 3
(`Grammar.classify_of_wellFormed`). It is of type 3 just when it is `Grammar.Regular`: right-linear
throughout or left-linear throughout, and only a start that occurs on no right-hand side vanishes
(`Grammar.classify_eq_regular_iff`). -/

namespace FormalLanguages

namespace Form

/-- **Left-linear forms** are empty, a letter, or a nonterminal followed by a letter. -/
inductive LeftLinear : Form → Prop
  /-- The empty form is left-linear. -/
  | empty : LeftLinear []
  /-- A letter is left-linear. -/
  | letter (c : Char) : LeftLinear [.terminal c]
  /-- A nonterminal followed by a letter is left-linear. -/
  | linked (n : String) (c : Char) : LeftLinear [.nonterminal n, .terminal c]

end Form

namespace Grammar

variable {g : Grammar}

/-! ## The parts of the phrase-structure grammar -/

/-- The productions stay what they are. -/
theorem mem_productions_toPhraseGrammar {r : Rewriting} :
    r ∈ g.toPhraseGrammar.productions ↔
      ∃ p, p ∈ g.productions ∧ ⟨[.nonterminal p.lhs], p.rhs⟩ = r :=
  SortedSet.mem_image

/-- The left-hand sides are single nonterminals, those of productions. -/
theorem mem_leftSides_toPhraseGrammar {lhs : Form} :
    lhs ∈ g.toPhraseGrammar.leftSides ↔ ∃ p, p ∈ g.productions ∧ [.nonterminal p.lhs] = lhs := by
  rw [PhraseGrammar.mem_leftSides]
  constructor
  · rintro (head | ⟨r, given, rfl⟩)
    · obtain ⟨name, left, rfl⟩ := SortedSet.mem_image.1 head
      obtain ⟨rhs, mem⟩ := mem_leftSides.1 left
      exact ⟨_, mem, rfl⟩
    · obtain ⟨p, mem, rfl⟩ := mem_productions_toPhraseGrammar.1 given
      exact ⟨p, mem, rfl⟩
  · rintro ⟨p, mem, rfl⟩
    exact .inr ⟨_, mem_productions_toPhraseGrammar.2 ⟨p, mem, rfl⟩, rfl⟩

/-- A well-formed grammar stays well formed. -/
theorem wellFormed_toPhraseGrammar (wf : g.WellFormed) : g.toPhraseGrammar.WellFormed := by
  have same : ∀ s, g.toPhraseGrammar.Declares s ↔ g.Declares s := fun s => by
    cases s <;> rfl
  refine ⟨wf.start_mem, fun lhs left s hs => ?_, fun r given s hs => ?_, fun lhs left => ?_⟩
  · obtain ⟨p, mem, rfl⟩ := mem_leftSides_toPhraseGrammar.1 left
    rw [List.mem_singleton.1 hs]
    exact wf.lhs_mem p mem
  · obtain ⟨p, mem, rfl⟩ := mem_productions_toPhraseGrammar.1 given
    exact (same s).2 (wf.declares p mem s hs)
  · obtain ⟨p, _, rfl⟩ := mem_leftSides_toPhraseGrammar.1 left
    exact ⟨p.lhs, List.mem_singleton_self _⟩

/-! ## The level -/

/-- A context-free grammar is at least of type 2. -/
theorem two_le_number_level (g : Grammar) : 2 ≤ g.toPhraseGrammar.level.number := by
  refine PhraseGrammar.two_le_number_level_iff.2 fun lhs left => ?_
  obtain ⟨p, _, rfl⟩ := mem_leftSides_toPhraseGrammar.1 left
  exact ⟨p.lhs, rfl⟩

/-- **A well-formed context-free grammar is classified**, as context-free or as regular. -/
theorem classify_of_wellFormed (wf : g.WellFormed) :
    g.classify = .ok .contextFree ∨ g.classify = .ok .regular := by
  have found : g.classify = .ok g.toPhraseGrammar.level :=
    PhraseGrammar.classify_eq_ok_iff.2 ⟨wellFormed_toPhraseGrammar wf, rfl⟩
  have least := g.two_le_number_level
  rw [found]
  cases level : g.toPhraseGrammar.level with
  | unrestricted => simp [level, Level.number] at least
  | contextSensitive => simp [level, Level.number] at least
  | contextFree => exact .inl rfl
  | regular => exact .inr rfl

/-- A grammar is **left-linear** when all its right-hand sides are. -/
def LeftLinear (g : Grammar) : Prop := ∀ p, p ∈ g.productions → Form.LeftLinear p.rhs

/-- A grammar is **regular** when it is right-linear or left-linear, and only a start that occurs on
no right-hand side vanishes. -/
structure Regular (g : Grammar) : Prop where
  /-- Nonterminals stand always at the same end. -/
  linear : g.RightLinear ∨ g.LeftLinear
  /-- Empty right-hand sides belong to an isolated start. -/
  start_of_empty : ∀ name, ⟨name, []⟩ ∈ g.productions → name = g.start ∧ g.StartIsolated

/-- A linear grammar has the right-hand sides of a regular one when only an isolated start
vanishes. -/
theorem Regular.shape (regular : g.Regular) {p : Production} (mem : p ∈ g.productions) :
    g.toPhraseGrammar.RegularRewriting ⟨[.nonterminal p.lhs], p.rhs⟩ := by
  obtain ⟨lhs, rhs⟩ := p
  have vanishes : rhs = [] → g.toPhraseGrammar.RegularRewriting ⟨[.nonterminal lhs], rhs⟩ := by
    rintro rfl
    obtain ⟨rfl, isolated⟩ := regular.start_of_empty lhs mem
    refine .empty fun r given => ?_
    obtain ⟨p, mem, rfl⟩ := mem_productions_toPhraseGrammar.1 given
    exact isolated p mem
  rcases regular.linear with linear | linear
  · cases linear _ mem with
    | empty => exact vanishes rfl
    | letter c => exact .letter _ c
    | linked c n => exact .right _ c n
  · cases linear _ mem with
    | empty => exact vanishes rfl
    | letter c => exact .letter _ c
    | linked n c => exact .left _ n c

/-- Right-hand sides of the shapes of a regular grammar that lack the shape with the nonterminal
first are right-linear. -/
theorem rightLinear_of_rewriting {p : Production}
    (shape : g.toPhraseGrammar.RegularRewriting ⟨[.nonterminal p.lhs], p.rhs⟩)
    (none : ∀ n c, p.rhs ≠ [.nonterminal n, .terminal c]) : Form.RightLinear p.rhs := by
  obtain ⟨lhs, rhs⟩ := p
  cases shape with
  | letter _ c => exact .letter c
  | right _ c n => exact .linked c n
  | left _ n c => exact absurd rfl (none n c)
  | empty _ => exact .empty

/-- Right-hand sides of the shapes of a regular grammar that lack the shape with the nonterminal last
are left-linear. -/
theorem leftLinear_of_rewriting {p : Production}
    (shape : g.toPhraseGrammar.RegularRewriting ⟨[.nonterminal p.lhs], p.rhs⟩)
    (none : ∀ c n, p.rhs ≠ [.terminal c, .nonterminal n]) : Form.LeftLinear p.rhs := by
  obtain ⟨lhs, rhs⟩ := p
  cases shape with
  | letter _ c => exact .letter c
  | right _ c n => exact absurd rfl (none c n)
  | left _ n c => exact .linked n c
  | empty _ => exact .empty

/-- **Regularity** is the same for a context-free grammar and for its phrase-structure grammar. -/
theorem regular_toPhraseGrammar_iff : g.toPhraseGrammar.Regular ↔ g.Regular := by
  constructor
  · intro regular
    have shape : ∀ p, p ∈ g.productions →
        g.toPhraseGrammar.RegularRewriting ⟨[.nonterminal p.lhs], p.rhs⟩ :=
      fun p mem => regular.shape _ (mem_productions_toPhraseGrammar.2 ⟨p, mem, rfl⟩)
    refine ⟨?_, fun name mem => ?_⟩
    · by_cases left : ∃ p n c, p ∈ g.productions ∧ p.rhs = [.nonterminal n, .terminal c]
      · obtain ⟨p, n, c, mem, same⟩ := left
        refine .inr fun q mem' => leftLinear_of_rewriting (shape q mem') fun c' n' same' => ?_
        exact regular.unmixed
          ⟨⟨_, c', n', mem_productions_toPhraseGrammar.2 ⟨q, mem', rfl⟩, same'⟩,
            ⟨_, n, c, mem_productions_toPhraseGrammar.2 ⟨p, mem, rfl⟩, same⟩⟩
      · refine .inl fun p mem => rightLinear_of_rewriting (shape p mem) fun n c same => ?_
        exact left ⟨p, n, c, mem, same⟩
    · cases shape _ mem with
      | empty isolated =>
        refine ⟨rfl, fun p mem => ?_⟩
        exact isolated _ (mem_productions_toPhraseGrammar.2 ⟨p, mem, rfl⟩)
  · intro regular
    refine ⟨fun lhs left => ?_, fun r given => ?_, ?_⟩
    · obtain ⟨p, _, rfl⟩ := mem_leftSides_toPhraseGrammar.1 left
      exact ⟨p.lhs, rfl⟩
    · obtain ⟨p, mem, rfl⟩ := mem_productions_toPhraseGrammar.1 given
      exact regular.shape mem
    · rintro ⟨⟨r, c, n, given, right⟩, ⟨r', n', c', given', left⟩⟩
      obtain ⟨p, mem, rfl⟩ := mem_productions_toPhraseGrammar.1 given
      obtain ⟨q, mem', rfl⟩ := mem_productions_toPhraseGrammar.1 given'
      rcases regular.linear with linear | linear
      · have shape : Form.RightLinear q.rhs := linear q mem'
        rw [show q.rhs = [.nonterminal n', .terminal c'] from left] at shape
        cases shape
      · have shape : Form.LeftLinear p.rhs := linear p mem
        rw [show p.rhs = [.terminal c, .nonterminal n] from right] at shape
        cases shape

/-- **The regular grammars** are the well-formed grammars of type 3. -/
theorem classify_eq_regular_iff (wf : g.WellFormed) :
    g.classify = .ok .regular ↔ g.Regular := by
  rw [classify, PhraseGrammar.classify_eq_ok_iff, and_iff_right (wellFormed_toPhraseGrammar wf),
    PhraseGrammar.level_eq_regular_iff, regular_toPhraseGrammar_iff]

end Grammar

end FormalLanguages
