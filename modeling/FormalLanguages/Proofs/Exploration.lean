import FormalLanguages.Exploration
import Mathlib.Logic.Relation

/-! # Searches in any order

A search takes one pending node after the other and leaves its unseen successors pending. In which
order it does so is left open here, so that a search with a stack and one with a queue are both
covered. Whatever the order, everything that has been seen is pending or has its successors seen
(`Search.Underway`), and every visit lowers what is still to be done by one. If finitely many nodes can
be reached, every search therefore ends, after one visit for each of them, and it has seen just these
nodes (`Search.endsWith_of_forall_mem_iff`). -/

namespace FormalLanguages

universe u

/-- A **search under way**. -/
structure Search (α : Type u) [Ord α] where
  /-- The nodes that have been seen. -/
  seen : SortedSet α
  /-- The nodes that have been seen but not visited. -/
  pending : List α

namespace Search

variable {α : Type u} [Ord α] {Next : α → α → Prop}

/-- What holds of a search **under way** from a root. -/
structure Underway (Next : α → α → Prop) (root : α) (s : Search α) : Prop where
  /-- The root has been seen. -/
  root_mem : root ∈ s.seen
  /-- All that has been seen is reached. -/
  reached : ∀ a, a ∈ s.seen → Relation.ReflTransGen Next root a
  /-- All that is pending has been seen. -/
  mem_of_pending : ∀ a ∈ s.pending, a ∈ s.seen
  /-- All that has been seen is pending, or its successors have been seen. -/
  pending_or_expanded : ∀ a, a ∈ s.seen → a ∈ s.pending ∨ ∀ b, Next a b → b ∈ s.seen

/-- When nothing is pending, all that can be reached has been seen. -/
theorem Underway.mem_of_reached {root : α} {s : Search α} (h : Underway Next root s)
    (ended : s.pending = []) {a : α} (reached : Relation.ReflTransGen Next root a) : a ∈ s.seen := by
  induction reached with
  | refl => exact h.root_mem
  | tail _ next ih =>
    rcases h.pending_or_expanded _ ih with waits | expanded
    · rw [ended] at waits
      exact absurd waits List.not_mem_nil
    · exact expanded _ next

/-! ## Visits -/

variable [Std.LawfulEqOrd α] [Std.TransOrd α]

/-- A search from a root begins with the root pending. -/
def start (root : α) : Search α := ⟨{root}, [root]⟩

/-- **One visit**: some pending node is taken, and its successors that have not been seen are noted as
seen and left pending, each once. -/
inductive Visit (Next : α → α → Prop) : Search α → Search α → Prop
  /-- The visit of `node`, which has the unseen successors `new`. -/
  | take {seen new : SortedSet α} {pending rest later : List α} {node : α}
      (taken : pending.Perm (node :: rest)) (mem_new : ∀ b, b ∈ new ↔ Next node b ∧ b ∉ seen)
      (left : later.Perm (new.toList ++ rest)) : Visit Next ⟨seen, pending⟩ ⟨new ∪ seen, later⟩

/-- Some number of visits, one after the other. -/
inductive Visits (Next : α → α → Prop) (s : Search α) : Nat → Search α → Prop
  /-- No visit changes nothing. -/
  | none : Visits Next s 0 s
  /-- A further visit. -/
  | more {count : Nat} {t u : Search α} (earlier : Visits Next s count t)
      (last : Visit Next t u) : Visits Next s (count + 1) u

theorem underway_start (root : α) : Underway Next root (start root) where
  root_mem := SortedSet.mem_singleton.2 rfl
  reached a ha := by
    rw [SortedSet.mem_singleton.1 ha]
  mem_of_pending a ha := SortedSet.mem_singleton.2 (List.mem_singleton.1 ha)
  pending_or_expanded a ha := .inl (List.mem_singleton.2 (SortedSet.mem_singleton.1 ha))

/-- A visit keeps the invariant. -/
theorem Underway.visit {root : α} {s t : Search α} (h : Underway Next root s)
    (v : Visit Next s t) : Underway Next root t := by
  obtain @⟨seen, new, pending, rest, later, node, taken, mem_new, left⟩ := v
  have mem_seen : node ∈ seen := h.mem_of_pending node (taken.mem_iff.2 List.mem_cons_self)
  refine ⟨SortedSet.mem_union.2 (.inr h.root_mem), fun a ha => ?_, fun a ha => ?_, fun a ha => ?_⟩
  -- what is seen now is the node's successor or was seen before
  · rcases SortedSet.mem_union.1 ha with fresh | old
    · exact (h.reached node mem_seen).tail ((mem_new a).1 fresh).1
    · exact h.reached a old
  · rcases List.mem_append.1 (left.mem_iff.1 ha) with fresh | waits
    · exact SortedSet.mem_union.2 (.inl fresh)
    · have waited : a ∈ pending := taken.mem_iff.2 (List.mem_cons_of_mem _ waits)
      exact SortedSet.mem_union.2 (.inr (h.mem_of_pending a waited))
  · rcases SortedSet.mem_union.1 ha with fresh | old
    · exact .inl (left.mem_iff.2 (List.mem_append_left _ fresh))
    · rcases h.pending_or_expanded a old with waited | expanded
      · rcases List.mem_cons.1 (taken.mem_iff.1 waited) with rfl | waits
        -- the node that was taken: its successors have been seen by now
        · refine .inr fun b next => SortedSet.mem_union.2 ?_
          by_cases known : b ∈ seen
          · exact .inr known
          · exact .inl ((mem_new b).2 ⟨next, known⟩)
        · exact .inl (left.mem_iff.2 (List.mem_append_right _ waits))
      · exact .inr fun b next => SortedSet.mem_union.2 (.inr (expanded b next))

/-- A visit adds as many seen nodes as pending ones, but for the node that it takes. -/
theorem Visit.size_add {s t : Search α} (v : Visit Next s t) :
    t.seen.size + s.pending.length = s.seen.size + t.pending.length + 1 := by
  obtain @⟨seen, new, pending, rest, later, node, taken, mem_new, left⟩ := v
  have taken := taken.length_eq
  have left := left.length_eq
  have union := SortedSet.size_union (t := seen) fun a ha => ((mem_new a).1 ha).2
  rw [List.length_cons] at taken
  rw [List.length_append] at left
  simp only [SortedSet.size] at union ⊢
  omega

/-- The invariant holds after any number of visits. -/
theorem Visits.underway {root : α} {count : Nat} {s : Search α}
    (h : Visits Next (start root) count s) : Underway Next root s := by
  induction h with
  | none => exact underway_start root
  | more _ last ih => exact ih.visit last

/-- What has been seen has been visited or is pending. -/
theorem Visits.size_eq {root : α} {count : Nat} {s : Search α}
    (h : Visits Next (start root) count s) : s.seen.size = s.pending.length + count := by
  induction h with
  | none => rfl
  | more _ last ih =>
    have step := last.size_add
    omega

/-! ## The end of a search -/

/-- Every search from a root **ends with** the nodes `found`. -/
structure EndsWith (Next : α → α → Prop) (root : α) (found : SortedSet α) : Prop where
  /-- As long as something is pending a visit can follow. -/
  goes_on : ∀ count s, Visits Next (start root) count s → s.pending ≠ [] → ∃ t, Visit Next s t
  /-- There are no more visits than nodes to find. -/
  count_le : ∀ count s, Visits Next (start root) count s → count ≤ found.size
  /-- When nothing is pending, just these nodes have been seen, with one visit for each. -/
  seen_eq : ∀ count s, Visits Next (start root) count s → s.pending = [] →
    s.seen = found ∧ count = found.size

/-- **Every search ends**, whatever its order, if finitely many nodes can be reached: it visits each
of them once. -/
theorem endsWith_of_forall_mem_iff {root : α} {found : SortedSet α}
    (mem_found : ∀ a, a ∈ found ↔ Relation.ReflTransGen Next root a) :
    EndsWith Next root found where
  goes_on count s h ongoing := by
    classical
    obtain ⟨seen, pending⟩ := s
    obtain ⟨node, rest, rfl⟩ := List.exists_cons_of_ne_nil ongoing
    have reached := h.underway.reached node (h.underway.mem_of_pending node List.mem_cons_self)
    -- the unseen successors are reached as well, so they are finitely many
    have mem_new : ∀ b, b ∈ found.filter (fun b => decide (Next node b ∧ b ∉ seen)) ↔
        Next node b ∧ b ∉ seen := by
      intro b
      rw [SortedSet.mem_filter, decide_eq_true_iff, and_iff_right_iff_imp]
      exact fun unseen => (mem_found b).2 (reached.tail unseen.1)
    exact ⟨_, .take (.refl _) mem_new (.refl _)⟩
  count_le count s h := by
    have inside : s.seen ⊆ found := fun a ha => (mem_found a).2 (h.underway.reached a ha)
    have size := h.size_eq
    have le := SortedSet.size_le_of_subset inside
    omega
  seen_eq count s h ended := by
    have seen : s.seen = found := by
      ext a
      rw [mem_found]
      exact ⟨h.underway.reached a, h.underway.mem_of_reached ended⟩
    have size := h.size_eq
    rw [ended, List.length_nil, Nat.zero_add, seen] at size
    exact ⟨seen, size.symm⟩

end Search

end FormalLanguages
