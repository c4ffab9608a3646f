import FormalLanguages.SortedSet

/-! # States of automata

A state is a name, or it stands for a set of other states, as the states of a determinized automaton
do. The order of states puts names first and compares merged states member by member, so that sets
of states, and states merged from sets, have one representation (`State.merge_eq_merge_iff`). -/

namespace FormalLanguages

/-- A **state** of an automaton. -/
inductive State where
  /-- A state that is only a name. -/
  | atom (name : String)
  /-- A state that stands for the listed states. -/
  | merged (members : List State)

namespace State

mutual

/-- Names come before merged states; names keep their order, and merged states are compared
member by member. -/
def order : State → State → Ordering
  | atom m, atom n => compare m n
  | atom _, merged _ => .lt
  | merged _, atom _ => .gt
  | merged ss, merged ts => orderList ss ts

/-- Lists of states are compared member by member, a beginning of a list before the list. -/
def orderList : List State → List State → Ordering
  | [], [] => .eq
  | [], _ :: _ => .lt
  | _ :: _, [] => .gt
  | s :: ss, t :: ts => (order s t).then (orderList ss ts)

end

instance : Ord State := ⟨order⟩

mutual

theorem order_self : ∀ s : State, order s s = .eq
  | atom n => by simp [order, Std.ReflOrd.compare_self]
  | merged ss => by simp [order, orderList_self ss]

theorem orderList_self : ∀ ss : List State, orderList ss ss = .eq
  | [] => by simp [orderList]
  | s :: ss => by simp [orderList, order_self s, orderList_self ss]

end

mutual

theorem eq_of_order : ∀ s t : State, order s t = .eq → s = t
  | atom m, atom n, h => by simpa [order] using h
  | atom _, merged _, h => by simp [order] at h
  | merged _, atom _, h => by simp [order] at h
  | merged ss, merged ts, h => by
    rw [order] at h
    rw [eq_of_orderList ss ts h]

theorem eq_of_orderList : ∀ ss ts : List State, orderList ss ts = .eq → ss = ts
  | [], [], _ => rfl
  | [], _ :: _, h => by simp [orderList] at h
  | _ :: _, [], h => by simp [orderList] at h
  | s :: ss, t :: ts, h => by
    rw [orderList, Ordering.then_eq_eq] at h
    rw [eq_of_order s t h.1, eq_of_orderList ss ts h.2]

end

mutual

theorem order_swap : ∀ s t : State, order s t = (order t s).swap
  | atom m, atom n => by simpa [order] using Std.OrientedOrd.eq_swap
  | atom _, merged _ => by simp [order]
  | merged _, atom _ => by simp [order]
  | merged ss, merged ts => by simpa [order] using orderList_swap ss ts

theorem orderList_swap : ∀ ss ts : List State, orderList ss ts = (orderList ts ss).swap
  | [], [] => by simp [orderList]
  | [], _ :: _ => by simp [orderList]
  | _ :: _, [] => by simp [orderList]
  | s :: ss, t :: ts => by
    rw [orderList, orderList, Ordering.swap_then, ← order_swap s t, ← orderList_swap ss ts]

end

mutual

theorem order_isLE_trans : ∀ s t u : State,
    (order s t).isLE → (order t u).isLE → (order s u).isLE
  | atom l, atom m, atom n => by simpa [order] using Std.TransOrd.isLE_trans
  | atom _, atom _, merged _ => by simp [order]
  | atom _, merged _, atom _ => by simp [order]
  | atom _, merged _, merged _ => by simp [order]
  | merged _, atom _, atom _ => by simp [order]
  | merged _, atom _, merged _ => by simp [order]
  | merged _, merged _, atom _ => by simp [order]
  | merged ss, merged ts, merged us => by simpa [order] using orderList_isLE_trans ss ts us

theorem orderList_isLE_trans : ∀ ss ts us : List State,
    (orderList ss ts).isLE → (orderList ts us).isLE → (orderList ss us).isLE
  | [], _, [] => by simp [orderList]
  | [], _, _ :: _ => by simp [orderList]
  | _ :: _, [], _ => by simp [orderList]
  | _ :: _, _ :: _, [] => by simp [orderList]
  | s :: ss, t :: ts, u :: us => by
    simp only [orderList, Ordering.isLE_then_iff_and]
    intro hst htu
    have le := order_isLE_trans s t u hst.1 htu.1
    refine ⟨le, ?_⟩
    by_cases hsu : order s u = .lt
    · exact .inl hsu
    -- equal heads squeeze the head between them, so the tails decide
    · have hsu : order s u = .eq := by
        cases h : order s u <;> simp_all
      have := eq_of_order s u hsu
      subst this
      have hst' : order s t = .eq := by
        have := order_swap t s
        cases h : order s t <;> cases h' : order t s <;> simp_all
      have := eq_of_order s t hst'
      subst this
      simp only [order_self, reduceCtorEq, false_or] at hst htu
      exact .inr (orderList_isLE_trans ss ts us hst.2 htu.2)

end

instance : Std.TransOrd State where
  eq_swap {s t} := order_swap s t
  isLE_trans {s t u} := order_isLE_trans s t u

instance : Std.LawfulEqOrd State where
  compare_self {s} := order_self s
  eq_of_compare {s t} := eq_of_order s t

/-- Two states are equal when the order does not tell them apart. -/
instance : DecidableEq State := fun s t =>
  decidable_of_iff (compare s t = .eq) Std.LawfulEqOrd.compare_eq_iff_eq

/-- The state that stands for the elements of a set. -/
def ofSet (members : SortedSet State) : State := merged members.toList

@[simp] theorem ofSet_inj {s t : SortedSet State} : ofSet s = ofSet t ↔ s = t := by
  constructor
  · intro h
    cases s; cases t; cases h; rfl
  · exact congrArg ofSet

/-- The state that stands for the elements of a list, whatever their order and repetition. -/
def merge (members : List State) : State := ofSet (SortedSet.ofList members)

/-- **Merged states are sets**: two lists merge to one state just when they have the same
elements. -/
theorem merge_eq_merge_iff {ss ts : List State} :
    merge ss = merge ts ↔ ∀ s, s ∈ ss ↔ s ∈ ts := by
  rw [merge, merge, ofSet_inj]
  constructor
  · intro h s
    rw [← SortedSet.mem_ofList (l := ss), h, SortedSet.mem_ofList]
  · intro h
    ext s
    simp [h s]

mutual

/-- The **written form** of a state: its name, or its members between braces. -/
def text : State → String
  | atom name => name
  | merged members => "\x7b" ++ String.intercalate "," (texts members) ++ "\x7d"

/-- The written forms of several states. -/
def texts : List State → List String
  | [] => []
  | s :: ss => s.text :: texts ss

end

end State

end FormalLanguages
