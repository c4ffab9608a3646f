import FormalLanguages.Automaton.State
import Mathlib.Order.Defs.Unbundled

/-! # The identity and the order of states

States are ordered: names come first and keep their order, and merged states come in the lexicographic
order of their members (`State.Before`). This is a strict total order, and comparing states decides it.
A merged state lists its members in this order, each once, so lists with the same elements merge into one
state. States that are made of names by merging are therefore the same when they are the same sets, down
to any depth (`State.SameSet`); `State.identity_and_order` puts all this together. -/

namespace FormalLanguages.State

/-! ## The order -/

/-- The **order** of states: names come before merged states and keep their order, and merged states
come in the lexicographic order of their members. -/
inductive Before : State → State → Prop
  /-- Names are in order. -/
  | atoms {m n : String} (less : m < n) : Before (.atom m) (.atom n)
  /-- Names come before merged states. -/
  | atom_merged (n : String) (ss : List State) : Before (.atom n) (.merged ss)
  /-- Merged states are in the order of their members. -/
  | merged {ss ts : List State} (less : List.Lex Before ss ts) : Before (.merged ss) (.merged ts)

@[simp] theorem before_atoms_iff {m n : String} : Before (.atom m) (.atom n) ↔ m < n :=
  ⟨fun h => by cases h; assumption, .atoms⟩

@[simp] theorem not_before_atom {ss : List State} {n : String} : ¬ Before (.merged ss) (.atom n) :=
  fun h => by cases h

@[simp] theorem before_merged_iff {ss ts : List State} :
    Before (.merged ss) (.merged ts) ↔ List.Lex Before ss ts :=
  ⟨fun h => by cases h; assumption, .merged⟩

mutual

theorem order_eq_lt_iff : ∀ s t : State, order s t = .lt ↔ Before s t
  | .atom m, .atom n => by
    rw [order, before_atoms_iff]
    exact compareOfLessAndEq_eq_lt
  | .atom n, .merged ss => by simp [order, Before.atom_merged]
  | .merged ss, .atom n => by simp [order]
  | .merged ss, .merged ts => by
    rw [order, before_merged_iff]
    exact orderList_eq_lt_iff ss ts

theorem orderList_eq_lt_iff : ∀ ss ts : List State,
    orderList ss ts = .lt ↔ List.Lex Before ss ts
  | [], [] => by simp [orderList]
  | [], _ :: _ => by simp [orderList]
  | _ :: _, [] => by simp [orderList]
  | s :: ss, t :: ts => by
    have equal : order s t = .eq ↔ s = t := ⟨eq_of_order s t, fun same => same ▸ order_self s⟩
    rw [orderList, Ordering.then_eq_lt, List.cons_lex_cons_iff, equal, order_eq_lt_iff s t,
      orderList_eq_lt_iff ss ts]

end

/-- **Comparing states decides their order.** -/
theorem compare_eq_lt_iff {s t : State} : compare s t = .lt ↔ Before s t := order_eq_lt_iff s t

instance : DecidableRel Before := fun _ _ => decidable_of_iff _ compare_eq_lt_iff

/-- Names come before merged states, and a beginning of a list of members before the list. -/
example : Before (.atom "z") (merge []) ∧
    Before (merge [.atom "c", .atom "b"]) (merge [.atom "d", .atom "c", .atom "b"]) := by
  decide +kernel

/-- The order of states is a **strict total order**. -/
instance : IsStrictTotalOrder State Before where
  irrefl s := by
    rw [← compare_eq_lt_iff, Std.ReflOrd.compare_self]
    exact nofun
  trans s t u := by
    simp only [← compare_eq_lt_iff]
    exact Std.TransCmp.lt_trans
  trichotomous s t := by
    simp only [← compare_eq_lt_iff]
    intro notLess notGreater
    rw [← Std.OrientedCmp.gt_iff_lt] at notGreater
    refine Std.LawfulEqOrd.eq_of_compare ?_
    cases result : compare s t with
    | lt => exact absurd result notLess
    | eq => rfl
    | gt => exact absurd result notGreater

/-! ## The members of merged states -/

/-- A merged state lists the elements **in order, each once**. -/
theorem merge_eq_merged_iff {ss members : List State} :
    merge ss = .merged members ↔ members.Pairwise Before ∧ ∀ s, s ∈ members ↔ s ∈ ss := by
  have ascending : members.Pairwise Before ↔ members.Pairwise (compare · · = .lt) := by
    simp only [compare_eq_lt_iff]
  rw [ascending, merge, ofSet, State.merged.injEq]
  constructor
  · rintro rfl
    exact ⟨(SortedSet.ofList ss).ascending, fun s => SortedSet.mem_ofList⟩
  · rintro ⟨ordered, same⟩
    refine SortedSet.toList_injective_of_mem (SortedSet.ofList ss).ascending ordered fun s => ?_
    rw [same]
    exact SortedSet.mem_ofList

/-- A **proper state** is a name, or it is merged from proper states. -/
inductive Proper : State → Prop
  /-- A name is proper. -/
  | atom (n : String) : Proper (.atom n)
  /-- Proper states merge into a proper state. -/
  | merge {ss : List State} (each : ∀ s ∈ ss, Proper s) : Proper (merge ss)

/-- The members of a proper state are proper, and listed in order. -/
theorem Proper.of_merged {members : List State} (h : Proper (.merged members)) :
    members.Pairwise Before ∧ ∀ s ∈ members, Proper s := by
  generalize whole : State.merged members = u at h
  cases h with
  | atom n => cases whole
  | @merge ss each =>
    obtain ⟨ordered, same⟩ := merge_eq_merged_iff.1 whole.symm
    exact ⟨ordered, fun s hs => each s ((same s).1 hs)⟩

/-! ## Sets down to any depth -/

/-- **The same set down to any depth**: equal names, or merged states such that each member of one is
the same set as some member of the other. -/
def SameSet : State → State → Prop
  | .atom m, .atom n => m = n
  | .atom _, .merged _ => False
  | .merged _, .atom _ => False
  | .merged ss, .merged ts =>
    (∀ s, s ∈ ss → ∃ t, t ∈ ts ∧ SameSet s t) ∧ ∀ t, t ∈ ts → ∃ s, ∃ _ : s ∈ ss, SameSet s t
termination_by s => s

/-- A property of all states holds of names, and of merged states if it holds of their members. -/
@[elab_as_elim] theorem nested_induction {P : State → Prop} (atom : ∀ n, P (.atom n))
    (merged : ∀ ss, (∀ s ∈ ss, P s) → P (.merged ss)) (s : State) : P s := by
  cases s with
  | atom n => exact atom n
  | merged ss => exact merged ss fun s _ => nested_induction atom merged s
termination_by s

theorem sameSet_self (s : State) : SameSet s s := by
  induction s using nested_induction with
  | atom n => simp [SameSet]
  | merged ss ih =>
    rw [SameSet]
    exact ⟨fun s hs => ⟨s, hs, ih s hs⟩, fun s hs => ⟨s, hs, ih s hs⟩⟩

/-- Proper states that are the same set **are equal**. -/
theorem Proper.eq_of_sameSet {s t : State} (hs : Proper s) (ht : Proper t) (same : SameSet s t) :
    s = t := by
  induction s using nested_induction generalizing t with
  | atom n =>
    cases t with
    | atom m => rw [SameSet] at same; rw [same]
    | merged ts => rw [SameSet] at same; exact same.elim
  | merged ss ih =>
    cases t with
    | atom m => rw [SameSet] at same; exact same.elim
    | merged ts =>
      obtain ⟨ordered, each⟩ := hs.of_merged
      obtain ⟨ordered', each'⟩ := ht.of_merged
      rw [SameSet] at same
      obtain ⟨forth, back⟩ := same
      -- by the induction hypothesis the members that correspond to each other are equal
      have members : ∀ u, u ∈ ts ↔ u ∈ ss := by
        intro u
        constructor
        · intro hu
          obtain ⟨s, hs, same⟩ := back u hu
          rw [← ih s hs (each s hs) (each' u hu) same]
          exact hs
        · intro hu
          obtain ⟨t, ht, same⟩ := forth u hu
          rw [ih u hu (each u hu) (each' t ht) same]
          exact ht
      calc State.merged ss = State.merge ss :=
            (merge_eq_merged_iff.2 ⟨ordered, fun _ => Iff.rfl⟩).symm
        _ = .merged ts := merge_eq_merged_iff.2 ⟨ordered', members⟩

/-- **States are sets, and they are ordered.** Lists of states merge into one state just when they have
the same elements, whatever their order and repetition; the merged state lists them in order, each once.
So proper states are equal just when they are the same set down to any depth. The order of states, in
which names come first and merged states are compared member by member, is a strict total order, and
comparing two states tells which of them comes first or that they are equal. -/
theorem identity_and_order :
    (∀ ss ts : List State, merge ss = merge ts ↔ ∀ s, s ∈ ss ↔ s ∈ ts) ∧
      (∀ ss members : List State, merge ss = .merged members ↔
        members.Pairwise Before ∧ ∀ s, s ∈ members ↔ s ∈ ss) ∧
      (∀ s t : State, s.Proper → t.Proper → (s = t ↔ SameSet s t)) ∧
      IsStrictTotalOrder State Before ∧
      ∀ s t : State, (compare s t = .lt ↔ Before s t) ∧ (compare s t = .eq ↔ s = t) ∧
        (compare s t = .gt ↔ Before t s) := by
  refine ⟨fun _ _ => merge_eq_merge_iff, fun _ _ => merge_eq_merged_iff, fun s t hs ht => ?_,
    inferInstance, fun s t => ⟨compare_eq_lt_iff, Std.LawfulEqOrd.compare_eq_iff_eq, ?_⟩⟩
  · constructor
    · rintro rfl
      exact sameSet_self s
    · exact hs.eq_of_sameSet ht
  · rw [Std.OrientedCmp.gt_iff_lt]
    exact compare_eq_lt_iff

/-- Two ways of nesting states into one set, and another nesting that comes later. -/
theorem identity_and_order_nested :
    Proper (merge [.atom "b", merge [.atom "b", .atom "a", .atom "b"]]) ∧
      Proper (merge [merge [.atom "a", .atom "b"], .atom "b", .atom "b"]) ∧
      SameSet (merge [.atom "b", merge [.atom "b", .atom "a", .atom "b"]])
        (merge [merge [.atom "a", .atom "b"], .atom "b", .atom "b"]) ∧
      Before (merge [.atom "b", merge [.atom "b", .atom "a", .atom "b"]])
        (merge [merge [.atom "b"], .atom "c"]) := by
  obtain ⟨_, _, identity, _, order⟩ := identity_and_order
  have inner : Proper (merge [.atom "b", .atom "a", .atom "b"]) := .merge (by simp [Proper.atom])
  have inner' : Proper (merge [.atom "a", .atom "b"]) := .merge (by simp [Proper.atom])
  have outer : Proper (merge [.atom "b", merge [.atom "b", .atom "a", .atom "b"]]) :=
    .merge (by simp [Proper.atom, inner])
  have outer' : Proper (merge [merge [.atom "a", .atom "b"], .atom "b", .atom "b"]) :=
    .merge (by simp [Proper.atom, inner'])
  refine ⟨outer, outer', (identity _ _ outer outer').1 (by decide +kernel), ?_⟩
  exact (order _ _).1.1 (by decide +kernel)

end FormalLanguages.State
