import FormalLanguages.Proofs.Hierarchy.Integrity

/-! # What decides the classification

The answer of the classification is described here without the way in which it is found. A grammar is
rejected for an undeclared start, or for the first left-hand side whose rule makes no sense
(`PhraseGrammar.Rejected`). Otherwise its type hangs on three properties of its rules: whether a rule
for more than a single nonterminal shortens a form (`Shortens`), whether there is such a rule at all
(`HasContext`), and whether the grammar is `Regular`. -/

namespace FormalLanguages

namespace Form

variable {form : Form}

/-- Forms that place the nonterminal after the letter. -/
theorem orientation?_eq_right_iff :
    orientation? form = some .right ↔ ∃ c n, form = [.terminal c, .nonterminal n] := by
  constructor
  · intro oriented
    unfold orientation? at oriented
    split at oriented
    · exact ⟨_, _, rfl⟩
    · cases oriented
    · cases oriented
  · rintro ⟨c, n, rfl⟩
    rfl

/-- Forms that place the nonterminal before the letter. -/
theorem orientation?_eq_left_iff :
    orientation? form = some .left ↔ ∃ n c, form = [.nonterminal n, .terminal c] := by
  constructor
  · intro oriented
    unfold orientation? at oriented
    split at oriented
    · cases oriented
    · exact ⟨_, _, rfl⟩
    · cases oriented
  · rintro ⟨n, c, rfl⟩
    rfl

/-- Linear forms are a letter, or have an orientation. -/
theorem isLinear_iff :
    isLinear form = true ↔ (∃ c, form = [.terminal c]) ∨ ∃ o, orientation? form = some o := by
  constructor
  · intro linear
    unfold isLinear at linear
    split at linear
    · exact .inl ⟨_, rfl⟩
    · exact .inr (Option.isSome_iff_exists.1 linear)
  · rintro (⟨c, rfl⟩ | ⟨o, oriented⟩)
    · rfl
    · unfold isLinear
      split
      · rfl
      · exact Option.isSome_iff_exists.2 ⟨o, oriented⟩

end Form

namespace PhraseGrammar

variable {g : PhraseGrammar}

/-! ## Rejected grammars -/

/-- The fault of using an undeclared symbol. -/
def Fault.ofUndeclared : Symbol → Fault
  | .terminal c => .unknownTerminal c
  | .nonterminal n => .unknownNonterminal n

/-- The symbols of the rule for a left-hand side in the order in which they are read: the left-hand
side, then its alternatives. -/
def symbolsOfRule (g : PhraseGrammar) (lhs : Form) : Form :=
  lhs ++ (g.alternatives lhs).toList.flatten

/-- **What is wrong with a rule**: its first undeclared symbol or, if all are declared, a left-hand
side without nonterminals. -/
inductive RuleFault (g : PhraseGrammar) (lhs : Form) : Fault → Prop
  /-- The symbols before the one that is reported are declared. -/
  | undeclared {before after : Form} {s : Symbol}
      (read : g.symbolsOfRule lhs = before ++ s :: after)
      (declared : ∀ t ∈ before, g.Declares t) (unknown : ¬ g.Declares s) :
      RuleFault g lhs (.ofUndeclared s)
  /-- Nothing on the left can be rewritten. -/
  | nothingToRewrite (declared : ∀ s ∈ g.symbolsOfRule lhs, g.Declares s)
      (letters : ∀ name, .nonterminal name ∉ lhs) : RuleFault g lhs .nothingToRewrite

/-- **What a grammar is rejected for**: an undeclared start, or else the first left-hand side in order
whose rule has a fault. -/
inductive Rejected (g : PhraseGrammar) : Diagnostic Fault → Prop
  /-- The start is looked at before the rules. -/
  | start (undeclared : g.start ∉ g.nonterminals) :
      Rejected g ⟨.definition, .unknownStart g.start⟩
  /-- Nothing is wrong with the rules for smaller left-hand sides. -/
  | rule {lhs : Form} {fault : Fault} (declared : g.start ∈ g.nonterminals)
      (mem : lhs ∈ g.leftSides) (wrong : g.RuleFault lhs fault)
      (first : ∀ other, other ∈ g.leftSides → compare other lhs = .lt →
        ∀ f, ¬ g.RuleFault other f) :
      Rejected g ⟨.rewriting lhs (g.alternatives lhs).toList, fault⟩

/-- Undeclared symbols are told by name. -/
theorem unknown?_eq_some_iff {s : Symbol} {fault : Fault} :
    g.unknown? s = some fault ↔ ¬ g.Declares s ∧ .ofUndeclared s = fault := by
  unfold unknown?
  split
  · rename_i declared
    exact iff_of_false (by simp) fun h => h.1 declared
  · rename_i undeclared
    rw [and_iff_right undeclared]
    cases s <;> simp [Fault.ofUndeclared]

/-- The symbols of a rule are searched first, and only then its left-hand side. -/
theorem faultOfRule_alternatives (lhs : Form) :
    g.faultOfRule (lhs, g.alternatives lhs) =
      ((g.symbolsOfRule lhs).findSome? g.unknown?).or
        (if lhs.all Symbol.isTerminal then some .nothingToRewrite else none) := by
  rw [faultOfRule, symbolsOfRule]
  split
  · rename_i fault found
    rw [found, Option.some_or]
  · rename_i none
    rw [none, Option.none_or]

/-- **The fault of a rule** is its first undeclared symbol, or that nothing can be rewritten. -/
theorem faultOfRule_eq_some_iff {lhs : Form} {fault : Fault} :
    g.faultOfRule (lhs, g.alternatives lhs) = some fault ↔ g.RuleFault lhs fault := by
  rw [faultOfRule_alternatives, Option.or_eq_some_iff, List.findSome?_eq_some_iff,
    List.findSome?_eq_none_iff, Option.ite_none_right_eq_some, all_isTerminal_iff]
  simp only [unknown?_eq_some_iff, unknown?_eq_none_iff]
  constructor
  · rintro (⟨before, s, after, read, ⟨unknown, rfl⟩, declared⟩ | ⟨declared, letters, same⟩)
    · exact .undeclared read declared unknown
    · cases same
      exact .nothingToRewrite declared (not_exists.1 letters)
  · rintro (⟨read, declared, unknown⟩ | ⟨declared, letters⟩)
    · exact .inl ⟨_, _, _, read, ⟨unknown, rfl⟩, declared⟩
    · exact .inr ⟨declared, not_exists.2 letters, rfl⟩

/-- A rule in which nothing is found has no fault. -/
theorem forall_not_ruleFault_iff {lhs : Form} :
    (∀ fault, ¬ g.RuleFault lhs fault) ↔ g.faultOfRule (lhs, g.alternatives lhs) = none := by
  simp only [← faultOfRule_eq_some_iff, Option.eq_none_iff_forall_ne_some, ne_eq]

/-- **What is reported first** is what the grammar is rejected for. -/
theorem firstFault_eq_some_iff {d : Diagnostic Fault} : g.firstFault = some d ↔ g.Rejected d := by
  unfold firstFault
  split
  · rename_i declared
    rw [rules, List.findSome?_map, SortedSet.findSome?_toList_eq_some_iff]
    simp only [Function.comp_apply, Option.map_eq_some_iff, Option.map_eq_none_iff,
      faultOfRule_eq_some_iff, ← forall_not_ruleFault_iff]
    constructor
    · rintro ⟨lhs, mem, ⟨fault, wrong, rfl⟩, first⟩
      exact .rule declared mem wrong first
    · rintro (undeclared | ⟨_, mem, wrong, first⟩)
      · exact absurd declared undeclared
      · exact ⟨_, mem, ⟨_, wrong, rfl⟩, first⟩
  · rename_i undeclared
    rw [Option.some.injEq]
    constructor
    · rintro rfl
      exact .start undeclared
    · rintro (_ | ⟨declared, _⟩)
      · rfl
      · exact absurd declared undeclared

/-- **A grammar is rejected** for what is reported first. -/
theorem classify_eq_error_iff {d : Diagnostic Fault} : g.classify = .error d ↔ g.Rejected d := by
  rw [← firstFault_eq_some_iff, classify]
  split
  · rename_i fault found
    rw [found, Except.error.injEq, Option.some.injEq]
  · rename_i none
    simp [none]

/-! ## The types of accepted grammars -/

/-- A grammar **shortens** a form when a production for more than a single nonterminal is shorter on
the right. -/
def Shortens (g : PhraseGrammar) : Prop :=
  ∃ r, r ∈ g.productions ∧ (∀ name, r.lhs ≠ [.nonterminal name]) ∧ r.rhs.length < r.lhs.length

/-- A grammar **has a context** when some left-hand side is not a single nonterminal. -/
def HasContext (g : PhraseGrammar) : Prop :=
  ∃ lhs, lhs ∈ g.leftSides ∧ ∀ name, lhs ≠ [.nonterminal name]

/-- The **right-hand sides of a regular grammar**: a letter, alone or next to a nonterminal, or the
empty one of a start that occurs on no right-hand side. -/
inductive RegularRewriting (g : PhraseGrammar) : Rewriting → Prop
  /-- A letter. -/
  | letter (lhs : Form) (c : Char) : RegularRewriting g ⟨lhs, [.terminal c]⟩
  /-- A letter, then a nonterminal. -/
  | right (lhs : Form) (c : Char) (n : String) :
      RegularRewriting g ⟨lhs, [.terminal c, .nonterminal n]⟩
  /-- A nonterminal, then a letter. -/
  | left (lhs : Form) (n : String) (c : Char) :
      RegularRewriting g ⟨lhs, [.nonterminal n, .terminal c]⟩
  /-- Only an isolated start vanishes. -/
  | empty (isolated : ∀ r, r ∈ g.productions → .nonterminal g.start ∉ r.rhs) :
      RegularRewriting g ⟨[.nonterminal g.start], []⟩

/-- A grammar is **regular** when its rules replace single nonterminals by right-hand sides of a
regular grammar, with the nonterminal always at the same end. -/
structure Regular (g : PhraseGrammar) : Prop where
  /-- Left-hand sides are single nonterminals. -/
  single : ∀ lhs, lhs ∈ g.leftSides → ∃ name, lhs = [.nonterminal name]
  /-- Right-hand sides have one of the shapes. -/
  shape : ∀ r, r ∈ g.productions → g.RegularRewriting r
  /-- The two shapes with a nonterminal do not both occur. -/
  unmixed : ¬ ((∃ r c n, r ∈ g.productions ∧ r.rhs = [.terminal c, .nonterminal n]) ∧
    ∃ r n c, r ∈ g.productions ∧ r.rhs = [.nonterminal n, .terminal c])

/-- At least type 1: nothing is shortened. -/
theorem one_le_number_level_iff_not_shortens : 1 ≤ g.level.number ↔ ¬ g.Shortens := by
  simp only [one_le_number_level_iff, Shortens, Classical.or_iff_not_imp_left, not_exists, not_and,
    Nat.not_lt, ne_eq]

/-- At least type 2: there is no context. -/
theorem two_le_number_level_iff_not_hasContext : 2 ≤ g.level.number ↔ ¬ g.HasContext := by
  simp only [two_le_number_level_iff, HasContext, not_exists, not_and, Classical.not_forall,
    Classical.not_not, ne_eq]

/-- An orientation is that of a production for a single nonterminal. -/
theorem hasOrientation_iff {o : Orientation} :
    g.hasOrientation o = true ↔
      ∃ r, r ∈ g.productions ∧ (∃ name, r.lhs = [.nonterminal name]) ∧
        Form.orientation? r.rhs = some o := by
  have single : ∀ form : Form, (form.length = 1 ∧ form.all (!·.isTerminal) = true) ↔
      ∃ name, form = [.nonterminal name] := by
    intro form
    constructor
    · rintro ⟨one, none⟩
      obtain ⟨s, rfl⟩ := List.length_eq_one_iff.1 one
      cases s with
      | terminal c => simp at none
      | nonterminal name => exact ⟨name, rfl⟩
    · rintro ⟨name, rfl⟩
      exact ⟨rfl, rfl⟩
  simp only [hasOrientation, contextFreeProductions, List.any_eq_true, List.mem_filter,
    SortedSet.mem_toList, Bool.and_eq_true, decide_eq_true_iff, single, and_assoc]

/-- The start occurs on no right-hand side just when the search for it finds none. -/
theorem startOccursOnRight_eq_false_iff :
    g.startOccursOnRight = false ↔ ∀ r, r ∈ g.productions → .nonterminal g.start ∉ r.rhs := by
  simp only [startOccursOnRight, List.any_eq_false, SortedSet.mem_toList, List.contains_iff_mem]

/-- The right-hand sides that a regular grammar may have are those of the four shapes. -/
theorem allowsRegular_iff {name : String} {rhs : Form} :
    g.allowsRegular name rhs = true ↔ g.RegularRewriting ⟨[.nonterminal name], rhs⟩ := by
  unfold allowsRegular
  split
  · rename_i empty
    cases List.isEmpty_iff.1 empty
    rw [Bool.and_eq_true, beq_iff_eq, Bool.not_eq_true', startOccursOnRight_eq_false_iff]
    constructor
    · rintro ⟨rfl, isolated⟩
      exact .empty isolated
    · rintro ⟨⟩
      exact ⟨rfl, ‹_›⟩
  · rename_i nonempty
    rw [Form.isLinear_iff]
    constructor
    · rintro (⟨c, rfl⟩ | ⟨_ | _, oriented⟩)
      · exact .letter _ c
      · obtain ⟨c, n, rfl⟩ := Form.orientation?_eq_right_iff.1 oriented
        exact .right _ c n
      · obtain ⟨n, c, rfl⟩ := Form.orientation?_eq_left_iff.1 oriented
        exact .left _ n c
    · rintro (_ | _ | _ | _)
      · exact .inl ⟨_, rfl⟩
      · exact .inr ⟨.right, rfl⟩
      · exact .inr ⟨.left, rfl⟩
      · exact absurd rfl nonempty

/-- In a grammar without contexts, being mixed is having productions of both orientations. -/
theorem mixed_iff (single : ∀ lhs, lhs ∈ g.leftSides → ∃ name, lhs = [.nonterminal name]) :
    g.Mixed ↔ (∃ r c n, r ∈ g.productions ∧ r.rhs = [.terminal c, .nonterminal n]) ∧
      ∃ r n c, r ∈ g.productions ∧ r.rhs = [.nonterminal n, .terminal c] := by
  have lone : ∀ r, r ∈ g.productions → ∃ name, r.lhs = [.nonterminal name] :=
    fun r mem => single r.lhs (lhs_mem_leftSides mem)
  rw [Mixed, hasOrientation_iff, hasOrientation_iff]
  simp only [Form.orientation?_eq_right_iff, Form.orientation?_eq_left_iff]
  constructor
  · rintro ⟨⟨r, mem, _, c, n, right⟩, ⟨r', mem', _, n', c', left⟩⟩
    exact ⟨⟨r, c, n, mem, right⟩, ⟨r', n', c', mem', left⟩⟩
  · rintro ⟨⟨r, c, n, mem, right⟩, ⟨r', n', c', mem', left⟩⟩
    exact ⟨⟨r, mem, lone r mem, c, n, right⟩, ⟨r', mem', lone r' mem', n', c', left⟩⟩

/-- **Type 3**: the grammar is regular. -/
theorem three_le_number_level_iff : 3 ≤ g.level.number ↔ g.Regular := by
  rw [le_number_level_iff, and_iff_right (Nat.le_refl 3)]
  simp only [three_le_number_levelOfRule_iff, allowsRegular_iff]
  constructor
  · rintro ⟨each, unmixed⟩
    have single : ∀ lhs, lhs ∈ g.leftSides → ∃ name, lhs = [.nonterminal name] := by
      intro lhs mem
      obtain ⟨name, same, _⟩ := each lhs mem
      exact ⟨name, same⟩
    refine ⟨single, fun r mem => ?_, fun both => ?_⟩
    · obtain ⟨name, same, shape⟩ := each r.lhs (lhs_mem_leftSides mem)
      have found := shape r.rhs (mem_alternatives.2 mem)
      rwa [← same] at found
    · have impossible := unmixed ((mixed_iff single).2 both)
      omega
  · intro regular
    refine ⟨fun lhs mem => ?_, fun mixed => ?_⟩
    · obtain ⟨name, rfl⟩ := regular.single lhs mem
      exact ⟨name, rfl, fun rhs alternative => regular.shape _ (mem_alternatives.1 alternative)⟩
    · exact absurd ((mixed_iff regular.single).1 mixed) regular.unmixed

/-- The level of a grammar is type 3 when the grammar is regular. -/
theorem level_eq_regular_iff : g.level = .regular ↔ g.Regular := by
  have top := g.level.number_le_three
  rw [← three_le_number_level_iff, Level.eq_iff_number]
  refine and_iff_left ?_
  exact Nat.not_le_of_lt (Nat.lt_succ_of_le top)

/-- The well-formed grammars are those that are not rejected. -/
theorem wellFormed_iff_forall_not_rejected : g.WellFormed ↔ ∀ d, ¬ g.Rejected d := by
  simp only [← firstFault_eq_none_iff, ← firstFault_eq_some_iff,
    Option.eq_none_iff_forall_ne_some, ne_eq]

/-- A grammar that is not rejected has a type when it reaches its number and not the next one. -/
theorem classify_eq_ok_iff_number {level : Level} :
    g.classify = .ok level ↔ (∀ d, ¬ g.Rejected d) ∧
      level.number ≤ g.level.number ∧ ¬ level.number + 1 ≤ g.level.number := by
  rw [classify_eq_ok_iff, wellFormed_iff_forall_not_rejected, Level.eq_iff_number]

/-- **The classification is exact.** A grammar is rejected for its start or for the first rule that
makes no sense, with the fault of that rule. All others have the type that their rules ask for: type 0
when some rule shortens a form, else type 1 when some rule has a context, else type 3 when the grammar
is regular, and type 2 in the remaining cases. -/
theorem classify_exact (g : PhraseGrammar) :
    (∀ d, g.classify = .error d ↔ g.Rejected d) ∧
      (g.classify = .ok .unrestricted ↔ (∀ d, ¬ g.Rejected d) ∧ g.Shortens) ∧
      (g.classify = .ok .contextSensitive ↔
        (∀ d, ¬ g.Rejected d) ∧ ¬ g.Shortens ∧ g.HasContext) ∧
      (g.classify = .ok .regular ↔ (∀ d, ¬ g.Rejected d) ∧ g.Regular) ∧
      (g.classify = .ok .contextFree ↔
        (∀ d, ¬ g.Rejected d) ∧ ¬ g.Shortens ∧ ¬ g.HasContext ∧ ¬ g.Regular) := by
  have shortens : g.Shortens ↔ ¬ 1 ≤ g.level.number := by
    rw [one_le_number_level_iff_not_shortens, Classical.not_not]
  have context : g.HasContext ↔ ¬ 2 ≤ g.level.number := by
    rw [two_le_number_level_iff_not_hasContext, Classical.not_not]
  have top : g.level.number ≤ 3 := g.level.number_le_three
  -- the three properties are thresholds of one number, which decides between the types
  simp only [classify_eq_ok_iff_number, shortens, context, ← three_le_number_level_iff]
  generalize g.level.number = reached at top ⊢
  simp only [Level.number]
  refine ⟨fun d => classify_eq_error_iff, ?_, ?_, ?_, ?_⟩
  · exact and_congr_right fun _ => by omega
  · exact and_congr_right fun _ => by omega
  · exact and_congr_right fun _ => by omega
  · exact and_congr_right fun _ => by omega

end PhraseGrammar

end FormalLanguages
