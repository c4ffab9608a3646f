import FormalLanguages.SortedSet

/-! # Exploring a finite search space

Starting from a root, `SearchSpace.explore` visits all nodes that can be reached by steps to
successors. The space is finite: the nodes that can come up lie in a set that successors do not
leave, and of which no more than `bound` members can be seen. Every node is put on the frontier
once, so the search ends, and `mem_explore` says that it finds exactly the reachable nodes. -/

namespace FormalLanguages

universe u

/-- `Reaches next a b`: finitely many steps to successors lead from `a` to `b`. -/
inductive Reaches {α : Type u} (next : α → List α) (a : α) : α → Prop
  /-- Every node reaches itself. -/
  | refl : Reaches next a a
  /-- A successor of a reached node is reached. -/
  | step {b c : α} (reached : Reaches next a b) (mem : c ∈ next b) : Reaches next a c

section Sizes

variable {α : Type u} [Ord α] [Std.LawfulEqOrd α] [Std.TransOrd α]

/-- A union of sets without common members has as many members as both together. -/
theorem SortedSet.size_union {s t : SortedSet α} (disjoint : ∀ a, a ∈ s → a ∉ t) :
    (s ∪ t).size = s.size + t.size := by
  have both : (s.toList ++ t.toList).Nodup := by
    rw [List.nodup_append]
    refine ⟨s.nodup_toList, t.nodup_toList, fun a ha b hb hab => ?_⟩
    exact disjoint a ha (hab ▸ hb)
  have same : ∀ a, a ∈ s ∪ t ↔ a ∈ s.toList ++ t.toList := by
    simp [SortedSet.mem_toList]
  rw [size_eq_length both same, List.length_append, size, size]

end Sizes

/-- A **finite search space** over the nodes `α`. -/
structure SearchSpace (α : Type u) [Ord α] where
  /-- The successors of a node. -/
  next : α → List α
  /-- The nodes that can come up. -/
  Inside : α → Prop
  /-- Successors of such nodes can come up as well. -/
  closed : ∀ a, Inside a → ∀ b ∈ next a, Inside b
  /-- How many different nodes can come up at most. -/
  bound : Nat
  /-- No set of such nodes is larger than the bound. -/
  size_le : ∀ s : SortedSet α, (∀ a, a ∈ s → Inside a) → s.size ≤ bound

namespace SearchSpace

variable {α : Type u} [Ord α] [Std.LawfulEqOrd α] [Std.TransOrd α] [DecidableEq α]

/-- The successors of a node that have not been seen. -/
def unseen (space : SearchSpace α) (seen : SortedSet α) (a : α) : SortedSet α :=
  SortedSet.ofList ((space.next a).filter (· ∉ seen))

@[simp] theorem mem_unseen {space : SearchSpace α} {seen : SortedSet α} {a b : α} :
    b ∈ space.unseen seen a ↔ b ∈ space.next a ∧ b ∉ seen := by
  simp [unseen]

/-- Takes nodes off the frontier, notes their unseen successors as seen and puts them on the
frontier, until it is empty. -/
def visit (space : SearchSpace α) (seen : SortedSet α) (frontier : List α)
    (seen_inside : ∀ a, a ∈ seen → space.Inside a)
    (frontier_seen : ∀ a ∈ frontier, a ∈ seen) : SortedSet α :=
  match frontier with
  | [] => seen
  | a :: rest =>
    have inside : ∀ b, b ∈ space.unseen seen a ∪ seen → space.Inside b := fun b hb => by
      rcases SortedSet.mem_union.1 hb with hb | hb
      · exact space.closed a (seen_inside a (frontier_seen a (by simp))) b (mem_unseen.1 hb).1
      · exact seen_inside b hb
    visit space (space.unseen seen a ∪ seen) (rest ++ (space.unseen seen a).toList) inside
      fun b hb => by
        rcases List.mem_append.1 hb with hb | hb
        · exact SortedSet.mem_union.2 (.inr (frontier_seen b (List.mem_cons_of_mem _ hb)))
        · exact SortedSet.mem_union.2 (.inl hb)
termination_by space.bound - seen.size + frontier.length
decreasing_by
  -- every node that joins the frontier is a further member of what has been seen
  have size := SortedSet.size_union (s := space.unseen seen a) (t := seen)
    fun b hb => (mem_unseen.1 hb).2
  have le := space.size_le _ inside
  simp only [List.length_append, List.length_cons]
  simp only [SortedSet.size] at size le ⊢
  omega

/-- The nodes that can be **reached from a root**. -/
def explore (space : SearchSpace α) (root : α) (root_inside : space.Inside root) : SortedSet α :=
  space.visit {root} [root] (by simpa using root_inside) (by simp)

theorem mem_visit_of_mem {space : SearchSpace α} {seen : SortedSet α} {frontier : List α}
    {seen_inside : ∀ a, a ∈ seen → space.Inside a}
    {frontier_seen : ∀ a ∈ frontier, a ∈ seen} {a : α} (h : a ∈ seen) :
    a ∈ space.visit seen frontier seen_inside frontier_seen := by
  induction seen, frontier, seen_inside, frontier_seen using visit.induct with
  | case1 seen seen_inside _ => rw [visit]; exact h
  | case2 seen seen_inside b rest frontier_seen inside _ ih =>
    rw [visit]
    exact ih (SortedSet.mem_union.2 (.inr h))

/-- The search finds reachable nodes only. -/
theorem reaches_of_mem_visit {space : SearchSpace α} {root : α} {seen : SortedSet α}
    {frontier : List α} {seen_inside : ∀ a, a ∈ seen → space.Inside a}
    {frontier_seen : ∀ a ∈ frontier, a ∈ seen}
    (sound : ∀ a, a ∈ seen → Reaches space.next root a) {a : α}
    (h : a ∈ space.visit seen frontier seen_inside frontier_seen) :
    Reaches space.next root a := by
  induction seen, frontier, seen_inside, frontier_seen using visit.induct with
  | case1 seen seen_inside _ => rw [visit] at h; exact sound a h
  | case2 seen seen_inside b rest frontier_seen inside _ ih =>
    rw [visit] at h
    refine ih (fun c hc => ?_) h
    rcases SortedSet.mem_union.1 hc with hc | hc
    · exact .step (sound b (frontier_seen b (by simp))) (mem_unseen.1 hc).1
    · exact sound c hc

/-- If every seen node is on the frontier or has its successors among the seen, then the result of
the search holds the successors of all its nodes. -/
theorem next_mem_visit {space : SearchSpace α} {seen : SortedSet α} {frontier : List α}
    {seen_inside : ∀ a, a ∈ seen → space.Inside a}
    {frontier_seen : ∀ a ∈ frontier, a ∈ seen}
    (expanded : ∀ a, a ∈ seen → a ∈ frontier ∨ ∀ b ∈ space.next a, b ∈ seen) {a b : α}
    (ha : a ∈ space.visit seen frontier seen_inside frontier_seen) (hb : b ∈ space.next a) :
    b ∈ space.visit seen frontier seen_inside frontier_seen := by
  induction seen, frontier, seen_inside, frontier_seen using visit.induct with
  | case1 seen seen_inside _ =>
    rw [visit] at ha ⊢
    exact ((expanded a ha).resolve_left (by simp)) b hb
  | case2 seen seen_inside c rest frontier_seen inside _ ih =>
    rw [visit] at ha ⊢
    refine ih (fun d hd => ?_) ha
    simp only [SortedSet.mem_union, mem_unseen, List.mem_append, SortedSet.mem_toList] at hd ⊢
    rcases hd with hd | hd
    · exact .inl (.inr hd)
    · rcases expanded d hd with hd' | hd'
      · rcases List.mem_cons.1 hd' with rfl | hd'
        -- the node that was taken off: its successors are seen now
        · refine .inr fun e he => ?_
          by_cases hes : e ∈ seen
          · exact .inr hes
          · exact .inl ⟨he, hes⟩
        · exact .inl (.inl hd')
      · exact .inr fun e he => .inr (hd' e he)

/-- **The search is exact**: it finds the nodes that the root reaches. -/
@[simp] theorem mem_explore {space : SearchSpace α} {root : α} {root_inside : space.Inside root}
    {a : α} : a ∈ space.explore root root_inside ↔ Reaches space.next root a := by
  constructor
  · exact reaches_of_mem_visit fun b hb => by
      rw [SortedSet.mem_singleton.1 hb]
      exact .refl
  · intro h
    induction h with
    | refl => exact mem_visit_of_mem (by simp)
    | step _ mem ih => exact next_mem_visit (by simp) ih mem

end SearchSpace

end FormalLanguages
