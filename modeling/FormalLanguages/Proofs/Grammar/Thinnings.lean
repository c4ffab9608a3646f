import FormalLanguages.Proofs.Grammar.Vanishing
import Mathlib.Algebra.Group.Nat.Defs
import Mathlib.Data.Finset.Dedup
import Mathlib.Data.List.Sublists

/-! # Variants of a form by positions

A thinning leaves out the symbols at some of the positions that hold one of the given nonterminals, and
each set of such positions is used once: `Form.thinnings` lists what is left in the order in which the
subsets of the positions are listed (`Form.thinnings_eq`). The variants are the thinnings that leave
something, so there is one for each set of positions, less one if all symbols may be left out
(`Form.variants_exact`). -/

namespace FormalLanguages.Form

variable {names : SortedSet String} {s : Symbol} {rest : Form}

/-! ## Leaving out positions -/

/-- What is left of a form **without** the symbols at some positions. -/
def without (form : Form) (dropped : Finset Nat) : Form :=
  (form.zipIdx.filter fun x => x.2 ∉ dropped).map Prod.fst

/-- The **positions** at which a form holds one of the given nonterminals. -/
def positions (names : SortedSet String) (form : Form) : List Nat :=
  form.findIdxs (·.isAmong names)

theorem mem_positions {form : Form} {i : Nat} :
    i ∈ positions names form ↔ ∃ n, n ∈ names ∧ form[i]? = some (.nonterminal n) := by
  rw [positions, List.mem_findIdxs_iff_exists_getElem_pos]
  constructor
  · rintro ⟨inside, among⟩
    obtain ⟨n, same, mem⟩ := Symbol.isAmong_iff.1 among
    exact ⟨n, mem, by rw [List.getElem?_eq_getElem inside, same]⟩
  · rintro ⟨n, mem, found⟩
    obtain ⟨inside, same⟩ := List.getElem?_eq_some_iff.1 found
    exact ⟨inside, by rw [same]; exact Symbol.isAmong_nonterminal.2 mem⟩

/-- The positions in a longer form are those in the rest, one further on, and perhaps the first. -/
theorem positions_cons :
    positions names (s :: rest) =
      if s.isAmong names then 0 :: (positions names rest).map (· + 1)
      else (positions names rest).map (· + 1) := by
  rw [positions, List.findIdxs_cons, List.findIdxs_start]
  rfl

/-- Position 0 tells whether the first symbol is left out; in the rest each position is one less. -/
theorem without_cons {dropped later : Finset Nat} (shifted : ∀ i, i + 1 ∈ dropped ↔ i ∈ later) :
    without (s :: rest) dropped =
      if 0 ∈ dropped then rest.without later else s :: rest.without later := by
  have tail : ((rest.zipIdx 1).filter fun x => x.2 ∉ dropped).map Prod.fst =
      rest.without later := by
    rw [List.zipIdx_succ, List.filter_map, List.map_map]
    simp only [without, Function.comp_def, shifted]
  rw [without, List.zipIdx_cons, List.filter_cons]
  by_cases first : 0 ∈ dropped
  · simp only [first, not_true_eq_false, decide_false, Bool.false_eq_true, if_false, if_true]
    exact tail
  · simp only [first, not_false_eq_true, decide_true, if_true, if_false, List.map_cons]
    rw [tail]

/-- Positions in the rest keep the first symbol. -/
theorem without_shifted (dropped : List Nat) :
    without (s :: rest) (dropped.map (· + 1)).toFinset = s :: rest.without dropped.toFinset := by
  have shifted : ∀ i, i + 1 ∈ (dropped.map (· + 1)).toFinset ↔ i ∈ dropped.toFinset := by simp
  rw [without_cons shifted, if_neg (by simp)]

/-- Position 0 and positions in the rest leave the first symbol out. -/
theorem without_zero_shifted (dropped : List Nat) :
    without (s :: rest) (0 :: dropped.map (· + 1)).toFinset = rest.without dropped.toFinset := by
  have shifted : ∀ i, i + 1 ∈ (0 :: dropped.map (· + 1)).toFinset ↔ i ∈ dropped.toFinset := by
    simp
  rw [without_cons shifted, if_pos (by simp)]

/-- **Thinnings are what is left** when the subsets of the positions are left out one after the
other. -/
theorem thinnings_eq (form : Form) :
    thinnings names form =
      (positions names form).sublists'.map fun dropped => form.without dropped.toFinset := by
  induction form with
  | nil => rfl
  | cons s rest ih =>
    rw [positions_cons]
    by_cases among : s.isAmong names = true
    -- the sublists without position 0 come first, as do the thinnings that keep the symbol
    · rw [if_pos among, List.sublists'_cons, List.sublists'_map, List.map_append]
      simp only [List.map_map, Function.comp_def, without_shifted, without_zero_shifted]
      rw [thinnings, if_pos among, ih, List.map_map]
      rfl
    · rw [if_neg among, List.sublists'_map]
      simp only [List.map_map, Function.comp_def, without_shifted]
      rw [thinnings, if_neg among, ih, List.map_map]
      rfl

/-- A thinning leaves out some set of positions that hold the given nonterminals. -/
theorem mem_thinnings_iff {form thin : Form} :
    thin ∈ thinnings names form ↔ ∃ dropped : Finset Nat,
      (∀ i ∈ dropped, i ∈ positions names form) ∧ form.without dropped = thin := by
  rw [thinnings_eq, List.mem_map]
  constructor
  · rintro ⟨dropped, listed, rfl⟩
    refine ⟨dropped.toFinset, fun i hi => ?_, rfl⟩
    exact (List.mem_sublists'.1 listed).subset (List.mem_toFinset.1 hi)
  · rintro ⟨dropped, inside, rfl⟩
    -- the positions are listed in order, so the set is listed as one of their sublists
    refine ⟨(positions names form).filter (· ∈ dropped),
      List.mem_sublists'.2 List.filter_sublist, ?_⟩
    congr 1
    ext i
    simp only [List.mem_toFinset, List.mem_filter, decide_eq_true_eq]
    exact and_iff_right_of_imp (inside i)

/-! ## Counting -/

theorem length_thinnings (form : Form) :
    (thinnings names form).length = 2 ^ form.countP (·.isAmong names) := by
  rw [thinnings_eq, List.length_map, List.length_sublists', positions, List.length_findIdxs]

/-- One thinning leaves nothing if all symbols may be left out, and none otherwise. -/
theorem countP_isEmpty_thinnings (form : Form) :
    (thinnings names form).countP (·.isEmpty) =
      if form.all (·.isAmong names) then 1 else 0 := by
  induction form with
  | nil => rfl
  | cons s rest ih =>
    have none : ((thinnings names rest).map (s :: ·)).countP (·.isEmpty) = 0 := by
      simp [List.countP_eq_zero]
    by_cases among : s.isAmong names = true
    · simp [thinnings, among, none, ih]
    · simp [thinnings, among, none]

/-- **Variants are exact**: a form is a variant just when it has symbols and is what is left of the
given form without the symbols at some set of positions, all of which hold given nonterminals. There is
one variant for each such set, but for the set that leaves nothing. -/
theorem variants_exact (names : SortedSet String) (form : Form) :
    (∀ thin, thin ∈ variants names form ↔
        thin ≠ [] ∧ ∃ dropped : Finset Nat,
          (∀ i ∈ dropped, ∃ n, n ∈ names ∧ form[i]? = some (.nonterminal n)) ∧
            form.without dropped = thin) ∧
      (variants names form).length + (if form.all (·.isAmong names) then 1 else 0) =
        2 ^ form.countP (·.isAmong names) := by
  constructor
  · intro thin
    rw [mem_variants, mem_thinnings_iff, and_comm]
    simp only [mem_positions]
  · calc (variants names form).length + (if form.all (·.isAmong names) then 1 else 0)
        = (thinnings names form).countP (!·.isEmpty) +
            (thinnings names form).countP (·.isEmpty) := by
          rw [variants, ← List.countP_eq_length_filter, countP_isEmpty_thinnings]
      _ = (thinnings names form).length := by
          rw [List.length_eq_countP_add_countP (·.isEmpty), Nat.add_comm]
          simp only [Bool.not_eq_true, Bool.decide_eq_false]
      _ = 2 ^ form.countP (·.isAmong names) := length_thinnings form

/-- Both occurrences of a name are left out independently of each other. -/
example :
    variants (.ofList ["A"]) [.nonterminal "A", .terminal 'b', .nonterminal "A"] =
      [[.nonterminal "A", .terminal 'b', .nonterminal "A"], [.nonterminal "A", .terminal 'b'],
        [.terminal 'b', .nonterminal "A"], [.terminal 'b']] := by decide +kernel

end FormalLanguages.Form
