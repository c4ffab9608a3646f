/-! # Lists of everything that is found, in order

A report is complete and in order when it lists what is found at each of a number of places, once
and place after place (`ListsInOrder`). There is one such list (`ListsInOrder.unique`), so this says
what a report is without saying how it is made. The other lemmas put such lists together in the ways
that reports are made: one after the other, for the items of a list, and for its positions. -/

namespace FormalLanguages

universe u v w

variable {α : Type u} {β γ : Type v} {ι : Type w}

/-- Erasing repetitions makes an order strict where only what is repeated is not strictly
ordered. -/
theorem pairwise_eraseDups [BEq α] [LawfulBEq α] {R S : α → α → Prop}
    (strict : ∀ a b, R a b → a ≠ b → S a b) :
    ∀ l : List α, l.Pairwise R → l.eraseDups.Pairwise S
  | [], _ => .nil
  | a :: rest, ordered => by
    obtain ⟨first, ordered⟩ := List.pairwise_cons.1 ordered
    rw [List.eraseDups_cons, List.pairwise_cons]
    refine ⟨fun b kept => ?_, pairwise_eraseDups strict _ (ordered.filter _)⟩
    obtain ⟨mem, other⟩ := List.mem_filter.1 (List.mem_eraseDups.1 kept)
    refine strict a b (first b mem) ?_
    rintro rfl
    rw [beq_self_eq_true] at other
    cases other
termination_by l => l.length
decreasing_by
  rw [List.length_cons]
  exact Nat.lt_succ_of_le (List.length_filter_le _ _)

/-- A list **lists in order** what is found at places when it holds each `b` that is found at a
place once for that place, and what is found at a place before what is found at later places. -/
def ListsInOrder (before : α → α → Prop) (found : α → β → Prop) (l : List β) : Prop :=
  ∃ entries : List (α × β), entries.map Prod.snd = l ∧
    entries.Pairwise (fun x y => before x.1 y.1) ∧
    ∀ place b, (place, b) ∈ entries ↔ found place b

namespace ListsInOrder

variable {before : α → α → Prop} {found found' : α → β → Prop} {l l' : List β}

/-- What is in the list is found somewhere, and the other way round. -/
theorem mem_iff (lists : ListsInOrder before found l) {b : β} :
    b ∈ l ↔ ∃ place, found place b := by
  obtain ⟨entries, rfl, _, mem⟩ := lists
  rw [List.mem_map]
  constructor
  · rintro ⟨⟨place, c⟩, listed, rfl⟩
    exact ⟨place, (mem place c).1 listed⟩
  · rintro ⟨place, there⟩
    exact ⟨(place, b), (mem place b).2 there, rfl⟩

/-- There is nothing in the list just when there is nothing to be found. -/
theorem eq_nil_iff (lists : ListsInOrder before found l) :
    l = [] ↔ ∀ place b, ¬ found place b := by
  rw [List.eq_nil_iff_forall_not_mem, forall_comm]
  exact forall_congr' fun b => (not_congr lists.mem_iff).trans not_exists

/-- **There is one list**, if no place is before and after another. -/
theorem unique (asymm : ∀ x y, before x y → ¬ before y x) (lists : ListsInOrder before found l)
    (lists' : ListsInOrder before found l') : l = l' := by
  obtain ⟨entries, rfl, ordered, mem⟩ := lists
  obtain ⟨entries', rfl, ordered', mem'⟩ := lists'
  have once {es : List (α × β)} (ordered : es.Pairwise fun x y => before x.1 y.1) : es.Nodup := by
    refine ordered.imp fun {x y} first same => ?_
    subst same
    exact asymm _ _ first first
  have perm : entries.Perm entries' :=
    (List.perm_ext_iff_of_nodup (once ordered) (once ordered')).2 fun entry =>
      (mem entry.1 entry.2).trans (mem' entry.1 entry.2).symm
  rw [perm.eq_of_pairwise (fun x y _ _ first second => absurd second (asymm _ _ first)) ordered
    ordered']

/-- A list is the same just when it lists what is found, too. -/
theorem eq_iff (asymm : ∀ x y, before x y → ¬ before y x) (lists : ListsInOrder before found l) :
    l = l' ↔ ListsInOrder before found l' :=
  ⟨fun same => same ▸ lists, lists.unique asymm⟩

/-- What is found may be described in another way. -/
theorem congr (lists : ListsInOrder before found l)
    (same : ∀ place b, found place b ↔ found' place b) : ListsInOrder before found' l := by
  obtain ⟨entries, listed, ordered, mem⟩ := lists
  exact ⟨entries, listed, ordered, fun place b => (mem place b).trans (same place b)⟩

/-- Nothing is found. -/
theorem nil : ListsInOrder before (fun (_ : α) (_ : β) => False) [] :=
  ⟨[], rfl, .nil, fun _ _ => ⟨nofun, False.elim⟩⟩

/-- Something is found at one place. -/
theorem singleton (place : α) (b : β) :
    ListsInOrder before (fun x c => x = place ∧ c = b) [b] :=
  ⟨[(place, b)], rfl, List.pairwise_singleton _ _, fun x c => by
    rw [List.mem_singleton, Prod.mk.injEq]⟩

/-- Something is found at one place, unless a condition holds. -/
theorem ite {c : Prop} [Decidable c] (place : α) (b : β) :
    ListsInOrder before (fun x e => ¬ c ∧ x = place ∧ e = b) (if c then [] else [b]) := by
  split
  · rename_i holds
    exact nil.congr fun x e => (iff_of_false (fun found => found.1 holds) id).symm
  · rename_i fails
    exact (singleton place b).congr fun x e => (and_iff_right fails).symm

/-- **Lists one after the other** list what either of them lists, if all places of the first are
before those of the second. -/
theorem append (lists : ListsInOrder before found l) (lists' : ListsInOrder before found' l')
    (apart : ∀ x b y c, found x b → found' y c → before x y) :
    ListsInOrder before (fun x b => found x b ∨ found' x b) (l ++ l') := by
  obtain ⟨entries, rfl, ordered, mem⟩ := lists
  obtain ⟨entries', rfl, ordered', mem'⟩ := lists'
  refine ⟨entries ++ entries', List.map_append, ?_, fun place b => ?_⟩
  · refine List.pairwise_append.2 ⟨ordered, ordered', fun x here y there => ?_⟩
    exact apart _ _ _ _ ((mem _ _).1 here) ((mem' _ _).1 there)
  · rw [List.mem_append, mem, mem']

/-- What is listed may be turned into something else. -/
theorem map (lists : ListsInOrder before found l) (f : β → γ) :
    ListsInOrder before (fun x c => ∃ b, found x b ∧ f b = c) (l.map f) := by
  obtain ⟨entries, rfl, ordered, mem⟩ := lists
  refine ⟨entries.map fun entry => (entry.1, f entry.2), ?_, List.pairwise_map.2 ordered,
    fun place c => ?_⟩
  · rw [List.map_map, List.map_map]
    rfl
  · rw [List.mem_map]
    constructor
    · rintro ⟨⟨x, b⟩, listed, same⟩
      cases same
      exact ⟨b, (mem x b).1 listed, rfl⟩
    · rintro ⟨b, there, rfl⟩
      exact ⟨(place, b), (mem place b).2 there, rfl⟩

/-- What is listed may be shown in a way that the place decides: the list then shows, in order, the
places where something is found. -/
theorem map_shown (lists : ListsInOrder before found l) {f : β → γ} {shows : α → γ → Prop}
    (shown : ∀ x b, found x b → shows x (f b))
    (unique : ∀ x c c', shows x c → shows x c' → c = c') :
    ListsInOrder before (fun x c => (∃ b, found x b) ∧ shows x c) (l.map f) := by
  refine (lists.map f).congr fun x c => ?_
  constructor
  · rintro ⟨b, there, rfl⟩
    exact ⟨⟨b, there⟩, shown x b there⟩
  · rintro ⟨⟨b, there⟩, same⟩
    exact ⟨b, there, unique x _ _ (shown x b there) same⟩

/-- **The items of a list as places**: something is found at those that have a property. -/
theorem filter {items : List ι} {p : ι → Bool} {precedes : ι → ι → Prop} (place : ι → α) (f : ι → β)
    (ordered : items.Pairwise precedes)
    (apart : ∀ i j, precedes i j → before (place i) (place j)) :
    ListsInOrder before (fun x b => ∃ i ∈ items, p i = true ∧ x = place i ∧ b = f i)
      ((items.filter p).map f) := by
  refine ⟨(items.filter p).map fun i => (place i, f i), ?_, ?_, fun x b => ?_⟩
  · rw [List.map_map]
    rfl
  · exact List.pairwise_map.2 ((ordered.filter p).imp fun first => apart _ _ first)
  · simp only [List.mem_map, List.mem_filter, Prod.mk.injEq, and_assoc, eq_comm]

/-- **One list for each item** of a list lists what is found for any of the items, if the places of
an item are before those of the items that follow it. -/
theorem flatMap {items : List ι} {list : ι → List β} {found : ι → α → β → Prop}
    {precedes : ι → ι → Prop} (ordered : items.Pairwise precedes)
    (lists : ∀ i ∈ items, ListsInOrder before (found i) (list i))
    (apart : ∀ i j, precedes i j → ∀ x b y c, found i x b → found j y c → before x y) :
    ListsInOrder before (fun x b => ∃ i ∈ items, found i x b) (items.flatMap list) := by
  induction items with
  | nil => exact nil.congr fun x b => by simp
  | cons i rest ih =>
    obtain ⟨first, ordered⟩ := List.pairwise_cons.1 ordered
    obtain ⟨head, tail⟩ := List.forall_mem_cons.1 lists
    refine (append head (ih ordered tail) ?_).congr fun x b => by simp
    rintro x b y c here ⟨j, mem, there⟩
    exact apart i j (first j mem) x b y c here there

/-- **The positions of a list as places**: what a function gives for the items is found at their
positions. -/
theorem filterMap {items : List ι} {f : ι → Option β} (place : Nat → α)
    (ordered : ∀ i j, i < j → before (place i) (place j)) :
    ListsInOrder before
      (fun x b => ∃ i item, items[i]? = some item ∧ f item = some b ∧ x = place i)
      (items.filterMap f) := by
  induction items generalizing place with
  | nil => exact nil.congr fun x b => by simp
  | cons item rest ih =>
    -- the places of the others are one further on
    have others := ih (fun i => place (i + 1)) fun i j less =>
      ordered _ _ (Nat.add_lt_add_right less 1)
    have first : ListsInOrder before (fun x b => f item = some b ∧ x = place 0)
        (f item).toList := by
      cases f item with
      | none => exact nil.congr fun x b => by simp
      | some b => exact (singleton (place 0) b).congr fun x c => by simp [and_comm, eq_comm]
    have split : (item :: rest).filterMap f = (f item).toList ++ rest.filterMap f := by
      cases value : f item <;> simp [value]
    rw [split]
    refine (append first others ?_).congr fun x b => ?_
    · rintro x b y c ⟨_, rfl⟩ ⟨i, _, _, _, rfl⟩
      exact ordered _ _ (Nat.succ_pos i)
    · constructor
      · rintro (⟨value, rfl⟩ | ⟨i, other, there, value, rfl⟩)
        · exact ⟨0, item, rfl, value, rfl⟩
        · exact ⟨i + 1, other, there, value, rfl⟩
      · rintro ⟨_ | i, other, there, value, rfl⟩
        · cases there
          exact .inl ⟨value, rfl⟩
        · exact .inr ⟨i, other, there, value, rfl⟩

end ListsInOrder

end FormalLanguages
