import FormalLanguages.Sampling.KeyStream

/-! # Random sources

A `Source` is a random source as a value: words that are at hand, and possibly a keystream that
provides more. What is drawn after the last word is zero. An index below `n` is picked without bias
by multiplying a word with `n`; words that would favour some index are refused and replaced by the
next one. Zero is never refused, so a pick ends. What a derivation needs of a source, whatever its
kind, is that it chooses from lists: this is a `Chooser`. -/

namespace FormalLanguages.Sampling

/-- The part of a keystream that is still to come. -/
structure KeyStream where
  /-- The key of the stream. -/
  key : Key
  /-- The number of the next block. -/
  block : Nat := 0

/-- How many blocks a keystream has: block numbers are 64 bits wide. -/
def KeyStream.blocks : Nat := UInt64.size

/-- How many words of a keystream are still to come. -/
def KeyStream.remaining (stream : KeyStream) : Nat := 16 * (KeyStream.blocks - stream.block)

/-- A **random source**. -/
structure Source where
  /-- The words at hand, in the order in which they are drawn. -/
  ahead : List UInt32
  /-- Where further words come from. -/
  stream : Option KeyStream := none
  /-- How many words have been drawn. -/
  drawn : Nat := 0

namespace Source

/-- The source that draws the given words. -/
def ofList (words : List UInt32) : Source := { ahead := words }

/-- The source that draws the keystream of a seed. -/
def ofSeed (seed : UInt64) : Source := { ahead := [], stream := some { key := keyOfSeed seed } }

/-- How many words are left before zeros follow. -/
def remaining (source : Source) : Nat :=
  source.ahead.length + match source.stream with
    | none => 0
    | some stream => stream.remaining

/-- **Draws** a word. -/
def next (source : Source) : UInt32 × Source :=
  match source.ahead with
  | word :: rest => (word, { source with ahead := rest, drawn := source.drawn + 1 })
  | [] =>
    match source.stream with
    | none => (0, { source with drawn := source.drawn + 1 })
    | some stream =>
      -- the words of a block are drawn one by one before the next block is made
      if stream.block < KeyStream.blocks then
        let words := keyBlock stream.key (UInt64.ofNat stream.block)
        (words[0],
          { ahead := words.toList.tail
            stream := some { stream with block := stream.block + 1 }
            drawn := source.drawn + 1 })
      else (0, { source with drawn := source.drawn + 1 })

/-- Each word that is drawn is counted. -/
@[simp] theorem drawn_next (source : Source) : source.next.2.drawn = source.drawn + 1 := by
  unfold next
  split
  · rfl
  · split
    · rfl
    · split <;> rfl

/-- A word other than zero uses up the source. -/
theorem remaining_next {source : Source} (h : source.next.1 ≠ 0) :
    source.next.2.remaining < source.remaining := by
  unfold next at h ⊢
  split
  · simp only [remaining, List.length_cons, *]
    omega
  · split
    · simp_all
    · split
      · simp only [remaining, KeyStream.remaining, List.length_tail, Vector.length_toList, *]
        omega
      · simp_all

/-- The largest low half of a product that is accepted when an index below `n` is picked: `n`
shifted to the left end of a word, less one. -/
def zone (n : Nat) : Nat := n <<< (31 - n.log2) - 1

/-- **Picks an index** below `n`, with the words that are refused on the way. -/
def pick (source : Source) (n : Nat) : Nat × Source :=
  -- the high half of the product is the index, the low half tells whether the word is fair
  let product := source.next.1.toNat * n
  if product % UInt32.size ≤ zone n then (product / UInt32.size, source.next.2)
  else pick source.next.2 n
termination_by source.remaining
decreasing_by
  rename_i refused
  refine remaining_next fun zero => refused ?_
  simp [product, zero]

/-- The high half of the product of a word with `n` is below `n`. -/
theorem mul_div_size_lt (word : UInt32) {n : Nat} (positive : 0 < n) :
    word.toNat * n / UInt32.size < n := by
  have lt : word.toNat * n < UInt32.size * n :=
    Nat.mul_lt_mul_of_pos_right word.toNat_lt_size positive
  exact Nat.div_lt_of_lt_mul lt

/-- **A picked index is in range**, however many words are refused on the way. -/
theorem pick_lt (source : Source) {n : Nat} (positive : 0 < n) : (source.pick n).1 < n := by
  induction source using pick.induct n with
  | case1 source product fair =>
    rw [pick, if_pos fair]
    exact mul_div_size_lt _ positive
  | case2 source product refused ih =>
    rw [pick, if_neg refused]
    exact ih

/-- **Chooses** an element of a list; nothing is drawn for an empty list. -/
def choose {α : Type} (source : Source) (items : List α) : Option α × Source :=
  if items.isEmpty then (none, source)
  else
    let (index, rest) := source.pick items.length
    (items[index]?, rest)

/-- Nothing is chosen from the empty list. -/
theorem choose_nil {α : Type} (source : Source) : source.choose ([] : List α) = (none, source) := rfl

/-- The element at the index that is picked is chosen from any other list. -/
theorem choose_of_ne_nil {α : Type} (source : Source) {items : List α} (nonempty : items ≠ []) :
    source.choose items = (items[(source.pick items.length).1]?, (source.pick items.length).2) := by
  rw [choose, if_neg (mt List.isEmpty_iff.1 nonempty)]

end Source

/-- A way of **choosing** from lists, with a source of any kind: what is chosen is an element of the
list, and only the empty list leaves nothing to choose. -/
structure Chooser (σ α : Type) where
  /-- What is chosen from a list, and the source afterwards. -/
  choose : σ → List α → Option α × σ
  /-- Nothing is chosen from the empty list. -/
  choose_nil : ∀ source, (choose source []).1 = none
  /-- From any other list one of its elements is chosen. -/
  choose_mem : ∀ source items, items ≠ [] → ∃ a, a ∈ items ∧ (choose source items).1 = some a

/-- Random sources choose without bias. -/
def Source.chooser {α : Type} : Chooser Source α where
  choose := choose
  choose_nil source := congrArg Prod.fst source.choose_nil
  choose_mem source items nonempty := by
    have lt := source.pick_lt (List.length_pos_iff.2 nonempty)
    refine ⟨items[(source.pick items.length).1], List.getElem_mem lt, ?_⟩
    rw [source.choose_of_ne_nil nonempty, List.getElem?_eq_getElem lt]

end FormalLanguages.Sampling
