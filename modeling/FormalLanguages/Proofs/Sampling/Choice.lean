import FormalLanguages.Sampling.Source

/-! # Every choice has a word

An index below `n` is the high half of a product with `n`. The least word whose product reaches the
index overshoots it by less than `n`, which no source refuses (`Source.pick_wordFor`). So each element
of a list is chosen by some word (`Source.exists_word_choose`), as long as words can tell the elements
apart. -/

namespace FormalLanguages.Sampling.Source

variable {α : Type} {index n : Nat}

/-- The least word whose product with `n` has the high half `index` or more. -/
def wordFor (index n : Nat) : UInt32 := UInt32.ofNat ((index * UInt32.size + (n - 1)) / n)

/-- Low halves below `n` are always accepted. -/
theorem pred_le_zone (n : Nat) : n - 1 ≤ zone n := by
  rw [zone, Nat.shiftLeft_eq]
  exact Nat.sub_le_sub_right (Nat.le_mul_of_pos_right n (Nat.two_pow_pos _)) 1

/-- The product with the word for an index lies less than `n` above the beginning of its range. -/
theorem toNat_wordFor_mul (lt : index < n) (small : n < UInt32.size) :
    index * UInt32.size ≤ (wordFor index n).toNat * n ∧
      (wordFor index n).toNat * n < index * UInt32.size + n := by
  have positive : 0 < n := Nat.zero_lt_of_lt lt
  have upper := Nat.div_mul_le_self (index * UInt32.size + (n - 1)) n
  have lower := Nat.lt_div_mul_add positive (a := index * UInt32.size + (n - 1))
  have fits : (index * UInt32.size + (n - 1)) / n < UInt32.size := by
    have before : index * UInt32.size + UInt32.size ≤ n * UInt32.size := by
      rw [← Nat.succ_mul]
      exact Nat.mul_le_mul_right _ lt
    rw [Nat.div_lt_iff_lt_mul positive, Nat.mul_comm UInt32.size]
    omega
  rw [wordFor, UInt32.toNat_ofNat_of_lt' fits]
  omega

/-- **The word for an index picks it**, and nothing else is drawn. -/
theorem pick_wordFor (lt : index < n) (small : n < UInt32.size) (rest : List UInt32)
    (stream : Option KeyStream) (drawn : Nat) :
    pick ⟨wordFor index n :: rest, stream, drawn⟩ n = (index, ⟨rest, stream, drawn + 1⟩) := by
  obtain ⟨reached, near⟩ := toNat_wordFor_mul lt small
  have high : (wordFor index n).toNat * n / UInt32.size = index := by
    refine Nat.div_eq_of_lt_le reached ?_
    rw [Nat.succ_mul]
    omega
  have low : (wordFor index n).toNat * n % UInt32.size ≤ zone n := by
    have parts := Nat.div_add_mod ((wordFor index n).toNat * n) UInt32.size
    rw [high, Nat.mul_comm] at parts
    have accepted := pred_le_zone n
    omega
  rw [pick, next]
  simp only [if_pos low, high]

/-- **Every element of a list is chosen by some word.** -/
theorem exists_word_choose {items : List α} {a : α} (mem : a ∈ items)
    (small : items.length < UInt32.size) :
    ∃ word : UInt32, ∀ rest stream drawn,
      choose ⟨word :: rest, stream, drawn⟩ items = (some a, ⟨rest, stream, drawn + 1⟩) := by
  obtain ⟨index, lt, rfl⟩ := List.getElem_of_mem mem
  refine ⟨wordFor index items.length, fun rest stream drawn => ?_⟩
  rw [choose_of_ne_nil _ (List.ne_nil_of_mem mem), pick_wordFor lt small,
    List.getElem?_eq_getElem lt]

end FormalLanguages.Sampling.Source
