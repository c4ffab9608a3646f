import FormalLanguages.SortedSet

/-! # How many subsets a set has

A set of `n` members has at most `2 ^ n` subsets: an ascending list of some of its members is one of
the `2 ^ n` sublists of its list. -/

namespace FormalLanguages

universe u

/-- All ways to leave out elements of a list. -/
def sublistsOf {α : Type u} : List α → List (List α)
  | [] => [[]]
  | a :: l => (sublistsOf l).map (a :: ·) ++ sublistsOf l

theorem length_sublistsOf {α : Type u} (l : List α) :
    (sublistsOf l).length = Nat.pow 2 l.length := by
  induction l with
  | nil => rfl
  | cons a l ih =>
    have double : Nat.pow 2 (l.length + 1) = Nat.pow 2 l.length * 2 := rfl
    simp only [sublistsOf, List.length_append, List.length_map, ih, List.length_cons, double]
    omega

theorem mem_sublistsOf {α : Type u} {l m : List α} (h : l.Sublist m) : l ∈ sublistsOf m := by
  induction h with
  | slnil => simp [sublistsOf]
  | cons a _ ih => simp [sublistsOf, ih]
  | cons_cons a _ ih => simp [sublistsOf, ih]

namespace SortedSet

variable {α : Type u} [Ord α] [Std.LawfulEqOrd α] [Std.TransOrd α]

/-- An ascending list of members of another ascending list is a sublist of it. -/
theorem sublist_of_mem : ∀ {l m : List α}, l.Pairwise (compare · · = .lt) →
    m.Pairwise (compare · · = .lt) → (∀ a ∈ l, a ∈ m) → l.Sublist m
  | [], _, _, _, _ => List.nil_sublist _
  | a :: l, [], _, _, h => absurd (h a (by simp)) (by simp)
  | a :: l, b :: m, hl, hm, h => by
    rw [List.pairwise_cons] at hl hm
    rcases List.mem_cons.1 (h a (by simp)) with rfl | ham
    · refine .cons_cons _ (sublist_of_mem hl.2 hm.2 fun c hc => ?_)
      rcases List.mem_cons.1 (h c (List.mem_cons_of_mem _ hc)) with rfl | hcm
      · have := hl.1 c hc
        simp [Std.ReflCmp.compare_self] at this
      · exact hcm
    · refine .cons _ (sublist_of_mem (List.pairwise_cons.2 hl) hm.2 fun c hc => ?_)
      rcases List.mem_cons.1 (h c hc) with rfl | hcm
      · rcases List.mem_cons.1 hc with rfl | hcl
        · exact ham
        -- `a` precedes `c`, which is the head that precedes `a`
        · have h₁ := hm.1 a ham
          have h₂ := hl.1 c hcl
          simp [Std.OrientedCmp.gt_of_lt h₁] at h₂
      · exact hcm

/-- A set of subsets of `s` has at most `2 ^ s.size` members. -/
theorem size_le_of_subsets {s : SortedSet α} {subsets : SortedSet (SortedSet α)}
    (h : ∀ t, t ∈ subsets → t ⊆ s) : subsets.size ≤ Nat.pow 2 s.size := by
  have nodup : (subsets.toList.map toList).Nodup :=
    List.Pairwise.map _ (fun t u htu h => htu (by cases t; cases u; cases h; rfl))
      subsets.nodup_toList
  have sub : subsets.toList.map toList ⊆ sublistsOf s.toList := by
    intro l hl
    obtain ⟨t, ht, rfl⟩ := List.mem_map.1 hl
    exact mem_sublistsOf (sublist_of_mem t.ascending s.ascending (h t ht))
  have := nodup.length_le_of_subset sub
  simpa [length_sublistsOf, size] using this

end SortedSet

end FormalLanguages
