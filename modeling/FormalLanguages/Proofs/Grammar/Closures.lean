import FormalLanguages.Proofs.Exploration
import FormalLanguages.Proofs.Grammar.Integrity
import FormalLanguages.Proofs.Inference

/-! # The closures behind the transformations

Removing empty right-hand sides, unproductive nonterminals and units rests on three sets that are
closed step by step. The nullable and the productive nonterminals are found in rounds, each of which
looks at all alternatives in the light of what was found before; the loop ends, and it ends with the
nonterminals that derive the empty word (`nullable_exact`), or any word (`productive_exact`). What a
nonterminal can be renamed to is what a search along the unit productions finds, in whatever order it
goes and whatever cycles it meets (`allRenamings_exact`). -/

namespace FormalLanguages.Grammar

variable {g : Grammar}

/-! ## Rounds -/

section Rounds

/-- A nonterminal **vanishes over** a set of names when some alternative consists of them. -/
def VanishesOver (g : Grammar) (known : SortedSet String) (name : String) : Prop :=
  ∃ rhs, rhs ∈ g.alternatives name ∧ ∀ s ∈ rhs, s.isAmong known = true

/-- A nonterminal is **productive over** a set of names when some alternative has no nonterminals
other than these. -/
def ProductiveOver (g : Grammar) (known : SortedSet String) (name : String) : Prop :=
  ∃ rhs, rhs ∈ g.alternatives name ∧ ∀ n, .nonterminal n ∈ rhs → n ∈ known

/-- The clauses of nullability conclude what vanishes. -/
theorem concludes_nullableClauses_iff (known : SortedSet String) (name : String) :
    Clause.Concludes g.nullableClauses known name ↔ g.VanishesOver known name := by
  constructor
  · rintro ⟨_, clause, rfl, holds⟩
    obtain ⟨p, mem, noLetter, rfl⟩ := mem_nullableClauses_iff.1 clause
    have consists := Form.forall_isNonterminal_iff.2 ⟨noLetter, holds⟩
    exact ⟨p.rhs, mem_alternatives.2 mem, fun s hs => Symbol.isAmong_iff.2 (consists s hs)⟩
  · rintro ⟨rhs, mem, among⟩
    obtain ⟨noLetter, holds⟩ :=
      Form.forall_isNonterminal_iff.1 fun s hs => Symbol.isAmong_iff.1 (among s hs)
    refine ⟨⟨name, Form.names rhs⟩, mem_nullableClauses_iff.2 ?_, rfl, holds⟩
    exact ⟨⟨name, rhs⟩, mem_alternatives.1 mem, noLetter, rfl⟩

/-- The clauses of productivity conclude what is productive. -/
theorem concludes_productiveClauses_iff (known : SortedSet String) (name : String) :
    Clause.Concludes g.productiveClauses known name ↔ g.ProductiveOver known name := by
  constructor
  · rintro ⟨_, clause, rfl, holds⟩
    obtain ⟨p, mem, rfl⟩ := List.mem_map.1 clause
    exact ⟨p.rhs, mem_alternatives.2 mem, fun n hn => holds n (Form.mem_names.2 hn)⟩
  · rintro ⟨rhs, mem, inside⟩
    refine ⟨⟨name, Form.names rhs⟩, List.mem_map.2 ⟨⟨name, rhs⟩, ?_, rfl⟩, rfl, fun n hn => ?_⟩
    · exact mem_alternatives.1 mem
    · exact inside n (Form.mem_names.1 hn)

/-- A grammar in which nonterminals vanish, or derive a word, through others only, and two of them are
renamed to each other. -/
def cascading : Grammar where
  start := "S"
  nonterminals := .ofList ["S", "A", "B", "C", "D", "E"]
  terminals := .ofList ['a']
  productions := .ofList [
    ⟨"S", [.nonterminal "A", .nonterminal "B"]⟩, ⟨"S", [.terminal 'a', .nonterminal "C"]⟩,
    ⟨"A", []⟩, ⟨"B", [.nonterminal "A", .nonterminal "A"]⟩,
    ⟨"C", [.nonterminal "C", .terminal 'a']⟩, ⟨"D", [.terminal 'a', .nonterminal "B"]⟩,
    ⟨"D", [.nonterminal "E"]⟩, ⟨"E", [.nonterminal "D"]⟩]

/-- **Nullability is computed exactly, and in rounds**: a loop that adds, round after round, whatever
vanishes over the names found so far comes to an end, after at most as many rounds as nonterminals are
declared. It has then found the nonterminals that generate the empty word. -/
theorem nullable_exact (wf : g.WellFormed) :
    (∃ rounds, rounds ≤ g.nonterminals.size ∧ ∀ count last,
        Saturates g.VanishesOver count ∅ last ↔ count = rounds ∧ last = g.nullable) ∧
      ∀ name, name ∈ g.nullable ↔ name ∈ g.nonterminals ∧ g.Generates name [] := by
  have members : ∀ name, name ∈ g.nullable ↔ name ∈ g.nonterminals ∧ g.Generates name [] := by
    intro name
    rw [mem_nullable_iff, ← generates_iff]
    exact (and_iff_right_of_imp wf.declared_of_generates).symm
  have declared : g.nullable ⊆ g.nonterminals := fun name found => ((members name).1 found).1
  exact ⟨saturates_consequences concludes_nullableClauses_iff declared, members⟩

/-- The start of the cascading grammar vanishes after those that it is rewritten into; what needs a
letter does not vanish. -/
theorem nullable_exact_cascading :
    cascading.WellFormed ∧ cascading.Generates "S" [] ∧ ¬ cascading.Generates "D" [] ∧
      ∃ rounds, rounds ≤ 6 ∧ Saturates cascading.VanishesOver rounds ∅ cascading.nullable := by
  have wf : cascading.WellFormed := by decide +kernel
  obtain ⟨⟨rounds, few, run⟩, members⟩ := nullable_exact wf
  refine ⟨wf, ((members "S").1 (by decide +kernel)).2, fun vanishes => ?_, rounds, few,
    (run _ _).2 ⟨rfl, rfl⟩⟩
  exact absurd ((members "D").2 ⟨by decide +kernel, vanishes⟩) (by decide +kernel)

/-- **Productivity is computed exactly, and in rounds**: a loop that adds, round after round, whatever
is productive over the names found so far comes to an end, after at most as many rounds as nonterminals
are declared. It has then found the nonterminals that generate some word, empty or not. -/
theorem productive_exact (wf : g.WellFormed) :
    (∃ rounds, rounds ≤ g.nonterminals.size ∧ ∀ count last,
        Saturates g.ProductiveOver count ∅ last ↔ count = rounds ∧ last = g.productive) ∧
      ∀ name, name ∈ g.productive ↔ name ∈ g.nonterminals ∧ ∃ word, g.Generates name word := by
  have members : ∀ name,
      name ∈ g.productive ↔ name ∈ g.nonterminals ∧ ∃ word, g.Generates name word := by
    intro name
    rw [← Productive, ← mem_productive_iff]
    exact (and_iff_right_of_imp wf.declared_of_mem_productive).symm
  have declared : g.productive ⊆ g.nonterminals := fun name found => ((members name).1 found).1
  exact ⟨saturates_consequences concludes_productiveClauses_iff declared, members⟩

/-- In the cascading grammar two nonterminals that are renamed to each other generate a word, since one
of them does otherwise; what only goes on in circles generates none. -/
theorem productive_exact_cascading :
    cascading.WellFormed ∧ (∃ word, cascading.Generates "E" word) ∧
      (¬ ∃ word, cascading.Generates "C" word) ∧
      ∃ rounds, rounds ≤ 6 ∧ Saturates cascading.ProductiveOver rounds ∅ cascading.productive := by
  have wf : cascading.WellFormed := by decide +kernel
  obtain ⟨⟨rounds, few, run⟩, members⟩ := productive_exact wf
  refine ⟨wf, ((members "E").1 (by decide +kernel)).2, fun generates => ?_, rounds, few,
    (run _ _).2 ⟨rfl, rfl⟩⟩
  exact absurd ((members "C").2 ⟨by decide +kernel, generates⟩) (by decide +kernel)

end Rounds

/-! ## Unit productions -/

section Units

/-- One nonterminal is an **alternative of another** on its own. -/
def HasUnit (g : Grammar) (name other : String) : Prop := [.nonterminal other] ∈ g.alternatives name

/-- Renaming is the reflexive and transitive closure of the unit productions. -/
theorem renamesTo_iff_reflTransGen {name other : String} :
    g.RenamesTo name other ↔ Relation.ReflTransGen g.HasUnit name other := by
  constructor
  · intro h
    induction h with
    | refl => exact .refl
    | step _ mem ih => exact ih.tail (mem_alternatives.2 mem)
  · intro h
    induction h with
    | refl => exact .refl
    | tail _ unit ih => exact .step ih (mem_alternatives.1 unit)

/-- **The unit closure is computed exactly**: there is one entry for each declared nonterminal, in
ascending order. The entry holds what zero or more unit productions lead to. Every search along the unit
productions ends with it, after one visit for each of its members. -/
theorem allRenamings_exact (g : Grammar) :
    g.allRenamings.map Prod.fst = g.nonterminals.toList ∧
      ∀ name closure, (name, closure) ∈ g.allRenamings →
        (∀ other, other ∈ closure ↔ Relation.ReflTransGen g.HasUnit name other) ∧
          Search.EndsWith g.HasUnit name closure := by
  constructor
  · rw [allRenamings, List.map_map]
    exact List.map_id _
  · intro name closure entry
    obtain ⟨_, _, same⟩ := List.mem_map.1 entry
    cases same
    have members : ∀ other,
        other ∈ g.renamings name ↔ Relation.ReflTransGen g.HasUnit name other :=
      fun other => mem_renamings_iff.trans renamesTo_iff_reflTransGen
    exact ⟨members, Search.endsWith_of_forall_mem_iff members⟩

/-- In the cascading grammar a search meets the nonterminal that it began with again. -/
theorem allRenamings_exact_cascading :
    ("E", .ofList ["D", "E"]) ∈ cascading.allRenamings ∧ cascading.HasUnit "E" "D" ∧
      cascading.HasUnit "D" "E" ∧ Relation.ReflTransGen cascading.HasUnit "E" "D" ∧
      Search.EndsWith cascading.HasUnit "E" (.ofList ["D", "E"]) := by
  have entry : ("E", .ofList ["D", "E"]) ∈ cascading.allRenamings := by decide +kernel
  obtain ⟨_, exact_entries⟩ := allRenamings_exact cascading
  obtain ⟨members, search⟩ := exact_entries "E" _ entry
  exact ⟨entry, mem_alternatives.2 (by decide +kernel), mem_alternatives.2 (by decide +kernel),
    (members "D").1 (by decide +kernel), search⟩

end Units

end FormalLanguages.Grammar
