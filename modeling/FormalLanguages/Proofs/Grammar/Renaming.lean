import FormalLanguages.Grammar.Unit
import FormalLanguages.Proofs.Grammar.Yield

/-! # Removing unit productions

`Grammar.RenamesTo` is what unit productions alone can do to a nonterminal, and `Grammar.renamings`
computes it (`mem_renamings_iff`). Taking over the other productions of all that a nonterminal can
be renamed to makes up for the unit productions, as long as only the start can vanish and nothing
else is renamed to a start that vanishes (`VanishesAtStart`): then `Grammar.withoutUnits` yields the
same words from every form. -/

namespace FormalLanguages.Grammar

section RenamesTo

variable {g : Grammar}

/-- **Renaming**: finitely many unit productions lead from a nonterminal to another. -/
inductive RenamesTo (g : Grammar) (name : String) : String → Prop
  /-- Every nonterminal is renamed to itself. -/
  | refl : RenamesTo g name name
  /-- A unit production renames once more. -/
  | step {middle last : String} (first : RenamesTo g name middle)
      (mem : ⟨middle, [.nonterminal last]⟩ ∈ g.productions) : RenamesTo g name last

/-- A single unit production renames. -/
theorem RenamesTo.of_mem {name other : String}
    (mem : ⟨name, [.nonterminal other]⟩ ∈ g.productions) : g.RenamesTo name other :=
  .step .refl mem

theorem RenamesTo.trans {name middle last : String} (first : g.RenamesTo name middle)
    (second : g.RenamesTo middle last) : g.RenamesTo name last := by
  induction second with
  | refl => exact first
  | step _ mem ih => exact .step ih mem

/-- A nonterminal yields what it can be renamed to yields. -/
theorem RenamesTo.yields {name other : String} (h : g.RenamesTo name other) {word : List Char}
    (d : g.Yields [.nonterminal other] word) : g.Yields [.nonterminal name] word := by
  induction h with
  | refl => exact d
  | step _ mem ih => exact ih (yields_nonterminal_iff.2 ⟨_, mem, d⟩)

/-- **The unit closure is exact**: it holds what a nonterminal can be renamed to. -/
theorem mem_renamings_iff {name other : String} :
    other ∈ g.renamings name ↔ g.RenamesTo name other := by
  rw [renamings, mem_consequences]
  constructor
  · intro h
    induction h with
    | fire c mem _ ih =>
      rcases List.mem_cons.1 mem with rfl | mem
      · exact .refl
      · obtain ⟨p, hp, clause⟩ := List.mem_filterMap.1 mem
        obtain ⟨n, unit, rfl⟩ := Option.map_eq_some_iff.1 clause
        have renamed : ⟨p.lhs, [.nonterminal n]⟩ ∈ g.productions := by
          rw [← Form.unit?_eq_some.1 unit]
          exact hp
        exact .step (ih p.lhs List.mem_cons_self) renamed
  · intro h
    induction h with
    | refl => exact .fire ⟨name, []⟩ List.mem_cons_self (by simp)
    | @step middle last _ mem ih =>
      refine .fire ⟨last, [middle]⟩ (List.mem_cons_of_mem _ ?_) (by simpa using ih)
      exact List.mem_filterMap.2 ⟨_, mem, by rw [Form.unit?_eq_some.2 rfl, Option.map_some]⟩

end RenamesTo

/-! ## The grammar without unit productions -/

section WithoutUnits

variable {g : Grammar}

/-- What is taken over is no unit, and empty only for the start. -/
theorem takesOver_iff {name : String} {rhs : Form} :
    g.takesOver name rhs = true ↔
      (∀ n, rhs ≠ [.nonterminal n]) ∧ (rhs = [] → name = g.start) := by
  have unit : (Form.unit? rhs).isNone = true ↔ ∀ n, rhs ≠ [.nonterminal n] := by
    rw [Option.isNone_iff_eq_none, Option.eq_none_iff_forall_ne_some]
    exact forall_congr' fun n => not_congr Form.unit?_eq_some
  have empty : (!rhs.isEmpty || name == g.start) = true ↔ (rhs = [] → name = g.start) := by
    cases rhs <;> simp
  rw [takesOver, Bool.and_eq_true, unit, empty]

/-- Each declared nonterminal has the productions, other than units, of all that it can be renamed
to. -/
theorem mem_withoutUnits {p : Production} :
    p ∈ g.withoutUnits.productions ↔ p.lhs ∈ g.nonterminals ∧
      (∃ n, g.RenamesTo p.lhs n ∧ ⟨n, p.rhs⟩ ∈ g.productions) ∧
        (∀ n, p.rhs ≠ [.nonterminal n]) ∧ (p.rhs = [] → p.lhs = g.start) := by
  rw [← takesOver_iff]
  simp only [withoutUnits, SortedSet.mem_bind, List.mem_flatMap, List.mem_map, List.mem_filter,
    SortedSet.mem_toList, mem_renamings_iff, mem_alternatives]
  constructor
  · rintro ⟨name, declared, n, renamed, rhs, ⟨mem, kept⟩, rfl⟩
    exact ⟨declared, ⟨n, renamed, mem⟩, kept⟩
  · rintro ⟨declared, ⟨n, renamed, mem⟩, kept⟩
    exact ⟨p.lhs, declared, n, renamed, p.rhs, ⟨mem, kept⟩, rfl⟩

/-- No production that remains only renames. -/
theorem unit_not_mem_withoutUnits (name n : String) :
    ⟨name, [.nonterminal n]⟩ ∉ g.withoutUnits.productions :=
  fun mem => (mem_withoutUnits.1 mem).2.2.1 n rfl

@[simp] theorem start_withoutUnits : g.withoutUnits.start = g.start := rfl

@[simp] theorem nonterminals_withoutUnits : g.withoutUnits.nonterminals = g.nonterminals := rfl

@[simp] theorem terminals_withoutUnits : g.withoutUnits.terminals = g.terminals := rfl

/-- **Vanishing at the start only**: no other nonterminal has an empty alternative, and none is
renamed to a start that has one. -/
structure VanishesAtStart (g : Grammar) : Prop where
  /-- Empty alternatives belong to the start. -/
  eq_start_of_empty : ∀ name, ⟨name, []⟩ ∈ g.productions → name = g.start
  /-- Units that lead to a start with an empty alternative belong to the start. -/
  eq_start_of_unit : ⟨g.start, []⟩ ∈ g.productions →
    ∀ name, ⟨name, [.nonterminal g.start]⟩ ∈ g.productions → name = g.start

/-- Without unit productions nothing new is yielded. -/
theorem yields_of_withoutUnits {form : Form} {word : List Char}
    (d : g.withoutUnits.Yields form word) : g.Yields form word := by
  refine d.simulate fun p mem word hw => ?_
  obtain ⟨-, ⟨n, renamed, mem⟩, -⟩ := mem_withoutUnits.1 mem
  exact renamed.yields (yields_nonterminal_iff.2 ⟨p.rhs, mem, hw⟩)

/-- A unit production is made up for by what its left-hand side takes over. -/
theorem withoutUnits_yields_of_unit (vanishing : g.VanishesAtStart) {name other : String}
    (declared : name ∈ g.nonterminals) (mem : ⟨name, [.nonterminal other]⟩ ∈ g.productions)
    {word : List Char} (d : g.withoutUnits.Yields [.nonterminal other] word) :
    g.withoutUnits.Yields [.nonterminal name] word := by
  obtain ⟨rhs, taken, hw⟩ := yields_nonterminal_iff.1 d
  obtain ⟨-, ⟨n, renamed, source⟩, notUnit, empty⟩ := mem_withoutUnits.1 taken
  have kept : rhs = [] → name = g.start := by
    intro h
    -- both the other nonterminal and the one it is renamed to are the start
    have otherStart : other = g.start := empty h
    have sourceEmpty : ⟨n, []⟩ ∈ g.productions := by rw [← h]; exact source
    have sourceStart := vanishing.eq_start_of_empty n sourceEmpty
    rw [sourceStart] at sourceEmpty
    exact vanishing.eq_start_of_unit sourceEmpty name (otherStart ▸ mem)
  exact yields_nonterminal_iff.2 ⟨rhs, mem_withoutUnits.2
    ⟨declared, ⟨n, (RenamesTo.of_mem mem).trans renamed, source⟩, notUnit, kept⟩, hw⟩

/-- Nothing that is yielded gets lost without unit productions. -/
theorem Yields.withoutUnits (declared : ∀ p, p ∈ g.productions → p.lhs ∈ g.nonterminals)
    (vanishing : g.VanishesAtStart) {form : Form} {word : List Char} (d : g.Yields form word) :
    g.withoutUnits.Yields form word := by
  refine d.simulate fun p mem word hw => ?_
  by_cases unit : ∃ n, p.rhs = [.nonterminal n]
  · obtain ⟨n, unit⟩ := unit
    rw [unit] at hw
    have renames : ⟨p.lhs, [.nonterminal n]⟩ ∈ g.productions := by rw [← unit]; exact mem
    exact withoutUnits_yields_of_unit vanishing (declared p mem) renames hw
  · refine yields_nonterminal_iff.2 ⟨p.rhs, mem_withoutUnits.2 ⟨declared p mem, ?_, ?_, ?_⟩, hw⟩
    · exact ⟨p.lhs, .refl, mem⟩
    · exact fun n same => unit ⟨n, same⟩
    · intro empty
      exact vanishing.eq_start_of_empty p.lhs (by rw [← empty]; exact mem)

/-- **Removing unit productions keeps what every form yields.** -/
theorem yields_withoutUnits_iff (declared : ∀ p, p ∈ g.productions → p.lhs ∈ g.nonterminals)
    (vanishing : g.VanishesAtStart) {form : Form} {word : List Char} :
    g.withoutUnits.Yields form word ↔ g.Yields form word :=
  ⟨yields_of_withoutUnits, Yields.withoutUnits declared vanishing⟩

end WithoutUnits

end FormalLanguages.Grammar
