/-! # Finite sets kept in ascending order

A `SortedSet α` is a strictly ascending list, so a set has one representation: two sets with the
same members are equal (`SortedSet.ext`), and listing a set always lists its members in order.
Each operation comes with the lemma that says which members its result has. -/

namespace FormalLanguages

universe u v

/-- A **finite set** whose members are listed in strictly ascending order. -/
structure SortedSet (α : Type u) [Ord α] where
  /-- The members in ascending order. -/
  toList : List α
  /-- Each member precedes all later ones. -/
  ascending : toList.Pairwise (compare · · = .lt)

namespace SortedSet

section Basic

variable {α : Type u} [Ord α]

/-- A member of the set is a member of its list. -/
instance : Membership α (SortedSet α) := ⟨fun s a => a ∈ s.toList⟩

theorem mem_toList {s : SortedSet α} {a : α} : a ∈ s.toList ↔ a ∈ s := Iff.rfl

instance [DecidableEq α] (a : α) (s : SortedSet α) : Decidable (a ∈ s) :=
  inferInstanceAs (Decidable (a ∈ s.toList))

instance [DecidableEq α] : DecidableEq (SortedSet α) := fun s t =>
  decidable_of_iff (s.toList = t.toList)
    ⟨fun h => by cases s; cases t; cases h; rfl, fun h => h ▸ rfl⟩

/-- A property of all members of a set can be decided member by member. -/
instance (s : SortedSet α) (p : α → Prop) [DecidablePred p] : Decidable (∀ a, a ∈ s → p a) :=
  inferInstanceAs (Decidable (∀ a, a ∈ s.toList → p a))

/-- A property of some member of a set can be decided member by member. -/
instance (s : SortedSet α) (p : α → Prop) [DecidablePred p] : Decidable (∃ a, a ∈ s ∧ p a) :=
  inferInstanceAs (Decidable (∃ a, a ∈ s.toList ∧ p a))

/-- The set without members. -/
instance : EmptyCollection (SortedSet α) := ⟨⟨[], .nil⟩⟩

@[simp] theorem toList_empty : (∅ : SortedSet α).toList = [] := rfl

@[simp] theorem not_mem_empty (a : α) : a ∉ (∅ : SortedSet α) := List.not_mem_nil

instance : Inhabited (SortedSet α) := ⟨∅⟩

/-- One set is part of another when all its members are. -/
instance : HasSubset (SortedSet α) := ⟨fun s t => ∀ a, a ∈ s → a ∈ t⟩

instance [DecidableEq α] (s t : SortedSet α) : Decidable (s ⊆ t) :=
  inferInstanceAs (Decidable (∀ a, a ∈ s → a ∈ t))

/-- The number of members. -/
def size (s : SortedSet α) : Nat := s.toList.length

/-- Whether the set has no members. -/
def isEmpty (s : SortedSet α) : Bool := s.toList.isEmpty

/-- The members with a given property. -/
def filter (s : SortedSet α) (p : α → Bool) : SortedSet α :=
  ⟨s.toList.filter p, s.ascending.filter p⟩

@[simp] theorem mem_filter {s : SortedSet α} {p : α → Bool} {a : α} :
    a ∈ s.filter p ↔ a ∈ s ∧ p a = true := List.mem_filter

@[simp] theorem toList_filter (s : SortedSet α) (p : α → Bool) :
    (s.filter p).toList = s.toList.filter p := rfl

theorem isEmpty_iff {s : SortedSet α} : s.isEmpty = true ↔ ∀ a, a ∉ s := by
  simp [isEmpty, List.eq_nil_iff_forall_not_mem, ← mem_toList]

/-- A set is not empty when it has an element. -/
theorem isEmpty_eq_false_iff {s : SortedSet α} : s.isEmpty = false ↔ ∃ a, a ∈ s := by
  rw [← Bool.not_eq_true, isEmpty_iff, Classical.not_forall]
  simp only [Classical.not_not]

/-- A strictly ascending list has no repetitions. -/
theorem nodup_toList [Std.ReflOrd α] (s : SortedSet α) : s.toList.Nodup :=
  s.ascending.imp fun {a b} h hab => by
    subst hab
    simp [Std.ReflCmp.compare_self] at h

/-- A set has as many members as any list of them without repetitions. -/
theorem size_eq_length [Std.ReflOrd α] {s : SortedSet α} {l : List α} (nodup : l.Nodup)
    (same : ∀ a, a ∈ s ↔ a ∈ l) : s.size = l.length := by
  have le := s.nodup_toList.length_le_of_subset fun a ha => (same a).1 ha
  have ge := nodup.length_le_of_subset fun a ha => (same a).2 ha
  exact Nat.le_antisymm le ge

/-- A part of a set has no more members than the set. -/
theorem size_le_of_subset [Std.ReflOrd α] {s t : SortedSet α} (sub : s ⊆ t) : s.size ≤ t.size :=
  s.nodup_toList.length_le_of_subset sub

/-- A part that lacks a member of the set has fewer members. -/
theorem size_lt_of_subset [Std.ReflOrd α] {s t : SortedSet α} (sub : s ⊆ t) {a : α} (mem : a ∈ t)
    (missing : a ∉ s) : s.size < t.size := by
  have nodup : (a :: s.toList).Nodup := List.nodup_cons.2 ⟨missing, s.nodup_toList⟩
  exact nodup.length_le_of_subset (List.cons_subset.2 ⟨mem, sub⟩)

end Basic

section Insertion

variable {α : Type u} [Ord α]

/-- Puts `a` at its place in an ascending list; a list that holds `a` already stays as it is. -/
def insertInto (a : α) : List α → List α
  | [] => [a]
  | b :: rest =>
    match compare a b with
    | .lt => a :: b :: rest
    | .eq => b :: rest
    | .gt => b :: insertInto a rest

variable [Std.LawfulEqOrd α]

@[simp] theorem mem_insertInto {a b : α} {l : List α} :
    b ∈ insertInto a l ↔ b = a ∨ b ∈ l := by
  induction l with
  | nil => simp [insertInto]
  | cons c rest ih =>
    unfold insertInto
    split
    · simp
    · rename_i h
      have : a = c := Std.LawfulEqOrd.eq_of_compare h
      subst this
      simp
    · simp only [List.mem_cons, ih]
      grind

variable [Std.TransOrd α]

theorem ascending_insertInto (a : α) {l : List α}
    (h : l.Pairwise (compare · · = .lt)) : (insertInto a l).Pairwise (compare · · = .lt) := by
  induction l with
  | nil => simp [insertInto]
  | cons c rest ih =>
    rw [List.pairwise_cons] at h
    unfold insertInto
    split
    · rename_i hac
      refine List.pairwise_cons.2 ⟨fun b hb => ?_, List.pairwise_cons.2 h⟩
      rcases List.mem_cons.1 hb with rfl | hb
      · exact hac
      · exact Std.TransCmp.lt_trans hac (h.1 b hb)
    · exact List.pairwise_cons.2 h
    · rename_i hac
      refine List.pairwise_cons.2 ⟨fun b hb => ?_, ih h.2⟩
      rcases mem_insertInto.1 hb with rfl | hb
      · exact Std.OrientedCmp.lt_of_gt hac
      · exact h.1 b hb

/-- The set with `a` as a further member. -/
def insert (s : SortedSet α) (a : α) : SortedSet α :=
  ⟨insertInto a s.toList, ascending_insertInto a s.ascending⟩

@[simp] theorem mem_insert {s : SortedSet α} {a b : α} : b ∈ s.insert a ↔ b = a ∨ b ∈ s :=
  mem_insertInto

/-- The set of the elements of a list, in any order and with any repetitions. -/
def ofList (l : List α) : SortedSet α := l.foldr (fun a s => s.insert a) ∅

@[simp] theorem ofList_nil : (ofList [] : SortedSet α) = ∅ := rfl

@[simp] theorem ofList_cons (a : α) (l : List α) : ofList (a :: l) = (ofList l).insert a := rfl

@[simp] theorem mem_ofList {l : List α} {a : α} : a ∈ ofList l ↔ a ∈ l := by
  induction l with
  | nil => simp
  | cons b l ih => simp [ih]

/-- The set with a single member. -/
instance : Singleton α (SortedSet α) := ⟨fun a => ofList [a]⟩

@[simp] theorem mem_singleton {a b : α} : b ∈ ({a} : SortedSet α) ↔ b = a := by
  show b ∈ ofList [a] ↔ b = a
  simp

/-- The union of two sets. -/
instance : Union (SortedSet α) := ⟨fun s t => s.toList.foldr (fun a u => u.insert a) t⟩

@[simp] theorem mem_union {s t : SortedSet α} {a : α} : a ∈ s ∪ t ↔ a ∈ s ∨ a ∈ t := by
  have key : ∀ l : List α, a ∈ l.foldr (fun a u => SortedSet.insert u a) t ↔ a ∈ l ∨ a ∈ t := by
    intro l
    induction l with
    | nil => simp
    | cons b l ih => simp [ih, or_assoc]
  exact key s.toList

/-- Two sets with the same members have the same list. -/
theorem toList_injective_of_mem : ∀ {l m : List α},
    l.Pairwise (compare · · = .lt) → m.Pairwise (compare · · = .lt) →
    (∀ a, a ∈ l ↔ a ∈ m) → l = m
  | [], [], _, _, _ => rfl
  | [], b :: m, _, _, h => absurd ((h b).2 (by simp)) (by simp)
  | a :: l, [], _, _, h => absurd ((h a).1 (by simp)) (by simp)
  | a :: l, b :: m, hl, hm, h => by
    rw [List.pairwise_cons] at hl hm
    have hab : a = b := by
      rcases List.mem_cons.1 ((h a).1 (by simp)) with hab | ham
      · exact hab
      · rcases List.mem_cons.1 ((h b).2 (by simp)) with hba | hbl
        · exact hba.symm
        -- each head would precede the other
        · have h₁ := hm.1 a ham
          have h₂ := hl.1 b hbl
          simp [Std.OrientedCmp.gt_of_lt h₁] at h₂
    subst hab
    -- the common head occurs in neither tail, so the tails have the same members too
    have tail : ∀ c, c ∈ l ↔ c ∈ m := by
      intro c
      constructor
      · intro hc
        rcases List.mem_cons.1 ((h c).1 (List.mem_cons_of_mem _ hc)) with rfl | hcm
        · have := hl.1 c hc
          simp [Std.ReflCmp.compare_self] at this
        · exact hcm
      · intro hc
        rcases List.mem_cons.1 ((h c).2 (List.mem_cons_of_mem _ hc)) with rfl | hcl
        · have := hm.1 c hc
          simp [Std.ReflCmp.compare_self] at this
        · exact hcl
    rw [toList_injective_of_mem hl.2 hm.2 tail]

/-- **Extensionality**: a set is determined by its members. -/
@[ext] theorem ext {s t : SortedSet α} (h : ∀ a, a ∈ s ↔ a ∈ t) : s = t := by
  have := toList_injective_of_mem s.ascending t.ascending h
  cases s; cases t; cases this; rfl

/-- **The first hit** of a search through a set is a member at which the search succeeds and before
which it does not. -/
theorem findSome?_toList_eq_some_iff {β : Type v} {s : SortedSet α} {f : α → Option β} {b : β} :
    s.toList.findSome? f = some b ↔
      ∃ a, a ∈ s ∧ f a = some b ∧ ∀ c, c ∈ s → compare c a = .lt → f c = none := by
  rw [List.findSome?_eq_some_iff]
  constructor
  · rintro ⟨before, a, after, listed, hit, missed⟩
    have ordered := s.ascending
    rw [listed, List.pairwise_append, List.pairwise_cons] at ordered
    refine ⟨a, mem_toList.1 (listed ▸ by simp), hit, fun c mem lt => ?_⟩
    have place : c ∈ before ∨ c = a ∨ c ∈ after := by
      simpa [listed] using mem_toList.2 mem
    rcases place with earlier | rfl | later
    · exact missed c earlier
    · simp [Std.ReflCmp.compare_self] at lt
    · have gt := Std.OrientedCmp.gt_of_lt (ordered.2.1.1 c later)
      simp [lt] at gt
  · rintro ⟨a, mem, hit, missed⟩
    obtain ⟨before, after, listed⟩ := List.append_of_mem (mem_toList.2 mem)
    refine ⟨before, a, after, listed, hit, fun c earlier => ?_⟩
    have ordered := s.ascending
    rw [listed, List.pairwise_append] at ordered
    refine missed c (mem_toList.1 (listed ▸ List.mem_append_left _ earlier)) ?_
    exact ordered.2.2 c earlier a List.mem_cons_self

end Insertion

section Images

variable {α : Type u} {β : Type v} [Ord α] [Ord β] [Std.LawfulEqOrd β] [Std.TransOrd β]

/-- The images of the members under a function. -/
def image (f : α → β) (s : SortedSet α) : SortedSet β := ofList (s.toList.map f)

@[simp] theorem mem_image {f : α → β} {s : SortedSet α} {b : β} :
    b ∈ s.image f ↔ ∃ a, a ∈ s ∧ f a = b := by
  simp [image, mem_toList]

/-- A set has as many images as members if no two members have one image. -/
theorem size_image [Std.ReflOrd α] {f : α → β} {s : SortedSet α}
    (injective : ∀ a, a ∈ s → ∀ b, b ∈ s → f a = f b → a = b) : (s.image f).size = s.size := by
  have nodup : (s.toList.map f).Nodup := List.pairwise_map.2 <|
    s.nodup_toList.imp_of_mem fun ha hb differ same => differ (injective _ ha _ hb same)
  calc (s.image f).size = (s.toList.map f).length := size_eq_length nodup fun _ => mem_ofList
    _ = s.size := List.length_map f

/-- The images of those members at which a partial function is defined. -/
def filterMap (f : α → Option β) (s : SortedSet α) : SortedSet β := ofList (s.toList.filterMap f)

@[simp] theorem mem_filterMap {f : α → Option β} {s : SortedSet α} {b : β} :
    b ∈ s.filterMap f ↔ ∃ a, a ∈ s ∧ f a = some b := by
  simp [filterMap, mem_toList]

/-- All elements that some member contributes. -/
def bind (s : SortedSet α) (f : α → List β) : SortedSet β := ofList (s.toList.flatMap f)

@[simp] theorem mem_bind {s : SortedSet α} {f : α → List β} {b : β} :
    b ∈ s.bind f ↔ ∃ a, a ∈ s ∧ b ∈ f a := by
  simp [bind, mem_toList]

end Images

/-! ## The order of sets

Sets are ordered as their lists are: member by member, a beginning of a list before the list. -/

section Order

variable {α : Type u} [Ord α]

instance : Ord (SortedSet α) := ⟨fun s t => compare s.toList t.toList⟩

instance [Std.TransOrd α] : Std.TransOrd (SortedSet α) where
  eq_swap {s t} := Std.OrientedOrd.eq_swap (a := s.toList) (b := t.toList)
  isLE_trans {s t r} := Std.TransOrd.isLE_trans (a := s.toList) (b := t.toList) (c := r.toList)

instance [Std.LawfulEqOrd α] : Std.LawfulEqOrd (SortedSet α) where
  compare_self {s} := Std.ReflOrd.compare_self (a := s.toList)
  eq_of_compare {s t} h := by
    have := Std.LawfulEqOrd.eq_of_compare (a := s.toList) (b := t.toList) h
    cases s; cases t; cases this; rfl

end Order

end SortedSet

end FormalLanguages
