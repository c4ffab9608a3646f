import FormalLanguages.Naming
import Mathlib.Data.List.Nodup

/-! # Names that are given out stay apart

The elements of a list are given names one after the other, each name new to those in use and to
those given out before (`GivenOut`). Such names are in use nowhere else, and no two elements share
one. A supply of numbered names gives out names in this way. Names with quote marks tell their
letters apart, and they never coincide with numbered names. -/

namespace FormalLanguages

/-! ## Tables of names -/

section Tables

variable {α : Type} {taken : SortedSet String} {names : List (α × String)}

/-- **Names given out** one after the other: each is new to the names in use, and is in use itself
from then on. -/
inductive GivenOut : SortedSet String → List (α × String) → Prop
  /-- No name is given out. -/
  | nil (taken : SortedSet String) : GivenOut taken []
  /-- A new name comes before the others. -/
  | cons {taken : SortedSet String} {a : α} {n : String} {rest : List (α × String)}
      (new : n ∉ taken) (others : GivenOut (taken.insert n) rest) : GivenOut taken ((a, n) :: rest)

/-- The names that are given out are **new**. -/
theorem GivenOut.not_mem_taken (h : GivenOut taken names) {x : α × String} (mem : x ∈ names) :
    x.2 ∉ taken := by
  induction h with
  | nil taken => cases mem
  | cons new _ ih =>
    rcases List.mem_cons.1 mem with rfl | mem
    · exact new
    · intro used
      exact ih mem (SortedSet.mem_insert.2 (.inr used))

/-- The names that are given out are **different** from each other. -/
theorem GivenOut.nodup (h : GivenOut taken names) : (names.map (·.2)).Nodup := by
  induction h with
  | nil taken => exact List.nodup_nil
  | cons _ others ih =>
    rw [List.map_cons, List.nodup_cons]
    refine ⟨fun again => ?_, ih⟩
    obtain ⟨x, mem, same⟩ := List.mem_map.1 again
    exact others.not_mem_taken mem (SortedSet.mem_insert.2 (.inl same))

/-- Elements that are given the same name are equal. -/
theorem GivenOut.eq_of_mem (h : GivenOut taken names) {a b : α} {n : String}
    (ha : (a, n) ∈ names) (hb : (b, n) ∈ names) : a = b :=
  congrArg Prod.fst (List.inj_on_of_nodup_map h.nodup ha hb rfl)

/-- An element that is listed once has one name. -/
theorem name_eq_of_nodup (once : (names.map (·.1)).Nodup) {a : α} {m n : String}
    (hm : (a, m) ∈ names) (hn : (a, n) ∈ names) : m = n :=
  congrArg Prod.snd (List.inj_on_of_nodup_map once hm hn rfl)

/-- A name is found for every element that is listed. -/
theorem exists_lookup [BEq α] [LawfulBEq α] {a : α} (listed : a ∈ names.map (·.1)) :
    ∃ n, names.lookup a = some n ∧ (a, n) ∈ names := by
  obtain ⟨x, mem, same⟩ := List.mem_map.1 listed
  cases found : names.lookup a with
  | none =>
    have differs := List.lookup_eq_none_iff.1 found x mem
    rw [same, bne_self_eq_false] at differs
    cases differs
  | some n =>
    obtain ⟨before, after, all, _⟩ := List.lookup_eq_some_iff.1 found
    refine ⟨n, rfl, ?_⟩
    rw [all]
    exact List.mem_append_right _ List.mem_cons_self

end Tables

/-! ## Numbered names -/

namespace NameSupply

variable {α : Type}

/-- Names are given to all elements, in their order. -/
theorem map_fst_assign (supply : NameSupply) (items : List α) :
    (supply.assign items).map (·.1) = items := by
  induction items generalizing supply with
  | nil => rfl
  | cons a rest ih => rw [assign, List.map_cons, ih]

/-- A supply gives out new names. -/
theorem givenOut_assign (supply : NameSupply) (items : List α) :
    GivenOut supply.taken (supply.assign items) := by
  induction items generalizing supply with
  | nil => exact .nil supply.taken
  | cons a rest ih => exact .cons (next_not_taken supply) (ih supply.next.2)

/-- The names that are given out are numbered. -/
theorem eq_numbered_of_mem_assign {supply : NameSupply} {items : List α} {x : α × String}
    (h : x ∈ supply.assign items) : ∃ k, x.2 = numbered k := by
  induction items generalizing supply with
  | nil => cases h
  | cons a rest ih =>
    rcases List.mem_cons.1 h with rfl | h
    · exact ⟨_, rfl⟩
    · exact ih h

end NameSupply

/-! ## Names with quote marks -/

/-- The characters of a name that is made from a letter: `T`, `_`, the letter, and quote marks. -/
theorem toList_primed_letter (c : Char) (k : Nat) :
    (primed ("T_" ++ c.toString) k).toList = 'T' :: '_' :: c :: List.replicate k '\'' := by
  simp [primed]

/-- A name that is made from a letter tells the letter. -/
theorem primed_letter_injective {c d : Char} {j k : Nat}
    (h : primed ("T_" ++ c.toString) j = primed ("T_" ++ d.toString) k) : c = d := by
  have chars := congrArg String.toList h
  rw [toList_primed_letter, toList_primed_letter] at chars
  simp only [List.cons.injEq] at chars
  exact chars.2.2.1

/-- A name that is made from a letter is not numbered. -/
theorem primed_letter_ne_numbered {c : Char} {j k : Nat} :
    primed ("T_" ++ c.toString) j ≠ numbered k := by
  intro h
  have chars := congrArg String.toList h
  rw [toList_primed_letter] at chars
  simp [numbered] at chars

end FormalLanguages
