import FormalLanguages.SortedSet

/-! # Names that are not taken

New names are the first free ones of a sequence of candidates: a base followed by more and more
quote marks (`freshPrimed`), or `X1`, `X2`, … (`NameSupply`). Among one candidate more than there
are taken names one is free, so the search is bounded (`firstFree_not_taken`). -/

namespace FormalLanguages

/-- The least number from `start` on whose candidate is not taken. -/
def firstFree (candidate : Nat → String) (taken : SortedSet String) (start : Nat) : Nat :=
  ((List.range' start (taken.size + 1)).find? (candidate · ∉ taken)).getD start

/-- Among one candidate more than there are taken names, one is free. -/
theorem exists_free {candidate : Nat → String} (distinct : ∀ i j, candidate i = candidate j → i = j)
    (taken : SortedSet String) (start : Nat) :
    ∃ k ∈ List.range' start (taken.size + 1), candidate k ∉ taken := by
  refine Classical.byContradiction fun none => ?_
  -- otherwise all these different candidates would be among fewer taken names
  have all : ∀ k ∈ List.range' start (taken.size + 1), candidate k ∈ taken := fun k hk =>
    Classical.byContradiction fun free => none ⟨k, hk, free⟩
  have nodup : ((List.range' start (taken.size + 1)).map candidate).Nodup :=
    List.Pairwise.map _ (fun i j hij h => hij (distinct i j h)) (List.nodup_range' ..)
  have sub : (List.range' start (taken.size + 1)).map candidate ⊆ taken.toList := by
    intro n hn
    obtain ⟨k, hk, rfl⟩ := List.mem_map.1 hn
    exact all k hk
  have le := nodup.length_le_of_subset sub
  simp only [List.length_map, List.length_range', SortedSet.size] at le
  omega

/-- The search for a free candidate succeeds, and all earlier candidates are taken. -/
theorem firstFree_spec {candidate : Nat → String}
    (distinct : ∀ i j, candidate i = candidate j → i = j) (taken : SortedSet String)
    (start : Nat) :
    candidate (firstFree candidate taken start) ∉ taken ∧
      (start ≤ firstFree candidate taken start ∧
        firstFree candidate taken start ≤ start + taken.size) ∧
      ∀ j, start ≤ j → j < firstFree candidate taken start → candidate j ∈ taken := by
  have found : ∃ k, (List.range' start (taken.size + 1)).find? (candidate · ∉ taken) = some k := by
    obtain ⟨k, hk, free⟩ := exists_free distinct taken start
    refine Option.ne_none_iff_exists'.1 fun none => ?_
    exact List.find?_eq_none.1 none k hk (by simpa using free)
  obtain ⟨k, hk⟩ := found
  have h := List.find?_range'_eq_some.1 hk
  simp only [firstFree, hk, Option.getD_some]
  simp only [decide_eq_true_eq, List.mem_range'_1, Bool.not_eq_true', decide_eq_false_iff_not,
    Classical.not_not] at h
  exact ⟨h.1, by omega, h.2.2⟩

/-- The first free candidate is not taken. -/
theorem firstFree_not_taken {candidate : Nat → String}
    (distinct : ∀ i j, candidate i = candidate j → i = j) (taken : SortedSet String)
    (start : Nat) : candidate (firstFree candidate taken start) ∉ taken :=
  (firstFree_spec distinct taken start).1

/-! ## Names with quote marks -/

/-- A base name followed by `k` quote marks. -/
def primed (base : String) (k : Nat) : String := base ++ String.ofList (List.replicate k '\'')

@[simp] theorem length_primed (base : String) (k : Nat) :
    (primed base k).length = base.length + k := by
  simp [primed]

theorem primed_injective (base : String) : ∀ i j, primed base i = primed base j → i = j :=
  fun i j h => by
    have := congrArg String.length h
    simpa using this

/-- The first of `base`, `base'`, `base''`, … that is not taken. -/
def freshPrimed (taken : SortedSet String) (base : String) : String :=
  primed base (firstFree (primed base) taken 0)

/-- A **fresh name is new**. -/
theorem freshPrimed_not_taken (taken : SortedSet String) (base : String) :
    freshPrimed taken base ∉ taken :=
  firstFree_not_taken (primed_injective base) taken 0

/-! ## Numbered names -/

/-- The numbered name `X1`, `X2`, … -/
def numbered (k : Nat) : String := "X" ++ k.repr

theorem numbered_injective : ∀ i j, numbered i = numbered j → i = j := fun i j h => by
  have digits : Nat.toDigits 10 i = Nat.toDigits 10 j := by
    simpa [numbered, Nat.repr_eq_ofList_toDigits] using congrArg String.toList h
  -- a number can be read back from its digits
  rw [← Nat.ofDigitChars_ten_toDigits (n := i), digits, Nat.ofDigitChars_ten_toDigits]

/-- A **supply of numbered names**: the names in use and the last number given out. -/
structure NameSupply where
  /-- The names in use. -/
  taken : SortedSet String
  /-- The last number given out. -/
  count : Nat := 0

namespace NameSupply

/-- Gives out the next numbered name that is not in use, and marks it as used. -/
def next (supply : NameSupply) : String × NameSupply :=
  let k := firstFree numbered supply.taken (supply.count + 1)
  (numbered k, ⟨supply.taken.insert (numbered k), k⟩)

/-- Gives every element of a list a name of its own. -/
def assign {α : Type} (supply : NameSupply) : List α → List (α × String)
  | [] => []
  | a :: rest => (a, supply.next.1) :: supply.next.2.assign rest

/-- A name that is given out was not in use. -/
theorem next_not_taken (supply : NameSupply) : supply.next.1 ∉ supply.taken :=
  firstFree_not_taken numbered_injective supply.taken (supply.count + 1)

end NameSupply

end FormalLanguages
