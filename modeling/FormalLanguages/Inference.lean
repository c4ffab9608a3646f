import FormalLanguages.SortedSet

/-! # Forward chaining over definite clauses

A `Clause` says that its conclusion holds as soon as all its premises do. `consequences` collects
everything that follows from a list of clauses by firing, round after round, the clauses whose
premises are already known; a clause fires at most once, so the rounds end with the clauses.
`mem_consequences` says that the result is exactly the least set closed under the clauses. -/

namespace FormalLanguages

universe u

/-- A **definite clause**: the conclusion holds when every premise holds. -/
structure Clause (α : Type u) where
  /-- What the clause establishes. -/
  conclusion : α
  /-- What it needs; a clause without premises is a fact. -/
  premises : List α

/-- `Follows cs a`: the clauses `cs` establish `a` in finitely many steps. -/
inductive Follows {α : Type u} (cs : List (Clause α)) : α → Prop
  /-- A clause whose premises follow establishes its conclusion. -/
  | fire (c : Clause α) (mem : c ∈ cs) (premises : ∀ a ∈ c.premises, Follows cs a) :
      Follows cs c.conclusion

namespace Clause

section Readiness

variable {α : Type u} [Ord α] [DecidableEq α]

/-- A clause is **ready** when all its premises are known. -/
def isReady (known : SortedSet α) (c : Clause α) : Bool := c.premises.all (· ∈ known)

@[simp] theorem isReady_iff {known : SortedSet α} {c : Clause α} :
    c.isReady known = true ↔ ∀ a ∈ c.premises, a ∈ known := by
  simp [isReady]

/-- The clauses that can fire now. -/
def ready (known : SortedSet α) (waiting : List (Clause α)) : List (Clause α) :=
  waiting.filter (·.isReady known)

/-- The clauses that still lack a premise. -/
def blocked (known : SortedSet α) (waiting : List (Clause α)) : List (Clause α) :=
  waiting.filter (!·.isReady known)

@[simp] theorem mem_ready {known : SortedSet α} {waiting : List (Clause α)} {c : Clause α} :
    c ∈ ready known waiting ↔ c ∈ waiting ∧ ∀ a ∈ c.premises, a ∈ known := by
  simp [ready]

@[simp] theorem mem_blocked {known : SortedSet α} {waiting : List (Clause α)} {c : Clause α} :
    c ∈ blocked known waiting ↔ c ∈ waiting ∧ ∃ a ∈ c.premises, a ∉ known := by
  simp [blocked, ← Bool.not_eq_true]

/-- Fewer clauses wait once a ready one has fired. -/
theorem length_blocked_lt {known : SortedSet α} {waiting : List (Clause α)}
    (h : ready known waiting ≠ []) : (blocked known waiting).length < waiting.length := by
  obtain ⟨c, hc⟩ := List.exists_mem_of_ne_nil _ h
  refine List.length_filter_lt_length_iff_exists.2 ⟨c, (mem_ready.1 hc).1, ?_⟩
  simpa using (mem_ready.1 hc).2

end Readiness

section Chaining

variable {α : Type u} [Ord α] [Std.LawfulEqOrd α] [Std.TransOrd α] [DecidableEq α]

/-- Fires every ready clause, adds the conclusions to what is known, and goes on with the clauses
that are still waiting, until none of them is ready. -/
def chain (known : SortedSet α) (waiting : List (Clause α)) : SortedSet α :=
  if _h : ready known waiting = [] then known
  else
    chain (SortedSet.ofList ((ready known waiting).map (·.conclusion)) ∪ known)
      (blocked known waiting)
termination_by waiting.length
decreasing_by exact length_blocked_lt _h

/-- What is known stays known. -/
theorem mem_chain_of_mem {known : SortedSet α} {waiting : List (Clause α)} {a : α}
    (h : a ∈ known) : a ∈ chain known waiting := by
  induction known, waiting using chain.induct with
  | case1 known waiting none => rw [chain, dif_pos none]; exact h
  | case2 known waiting some ih =>
    rw [chain, dif_neg some]
    exact ih (by simp [h])

/-- Chaining adds nothing that does not follow. -/
theorem follows_of_mem_chain {cs waiting : List (Clause α)} {known : SortedSet α}
    (sub : ∀ c ∈ waiting, c ∈ cs) (sound : ∀ a, a ∈ known → Follows cs a) {a : α}
    (h : a ∈ chain known waiting) : Follows cs a := by
  induction known, waiting using chain.induct with
  | case1 known waiting none => rw [chain, dif_pos none] at h; exact sound a h
  | case2 known waiting some ih =>
    rw [chain, dif_neg some] at h
    refine ih (fun c hc => sub c (mem_blocked.1 hc).1) (fun b hb => ?_) h
    simp only [SortedSet.mem_union, SortedSet.mem_ofList, List.mem_map, mem_ready] at hb
    rcases hb with ⟨c, ⟨hc, now⟩, rfl⟩ | hb
    · exact .fire c (sub c hc) fun p hp => sound p (now p hp)
    · exact sound b hb

/-- When chaining ends, every clause that waited and became ready has fired. -/
theorem conclusion_mem_chain {known : SortedSet α} {waiting : List (Clause α)} {c : Clause α}
    (hc : c ∈ waiting) (holds : ∀ a ∈ c.premises, a ∈ chain known waiting) :
    c.conclusion ∈ chain known waiting := by
  induction known, waiting using chain.induct with
  | case1 known waiting none =>
    rw [chain, dif_pos none] at holds
    exact absurd (mem_ready.2 ⟨hc, holds⟩) (by simp [none])
  | case2 known waiting some ih =>
    rw [chain, dif_neg some] at holds ⊢
    by_cases now : ∀ a ∈ c.premises, a ∈ known
    -- the clause fires in this round
    · refine mem_chain_of_mem ?_
      simp only [SortedSet.mem_union, SortedSet.mem_ofList, List.mem_map, mem_ready]
      exact .inl ⟨c, ⟨hc, now⟩, rfl⟩
    -- it goes on waiting
    · refine ih (mem_blocked.2 ⟨hc, ?_⟩) holds
      simpa using now

end Chaining

end Clause

variable {α : Type u} [Ord α] [Std.LawfulEqOrd α] [Std.TransOrd α] [DecidableEq α]

/-- Everything that follows from a list of clauses. -/
def consequences (cs : List (Clause α)) : SortedSet α := Clause.chain ∅ cs

/-- **Chaining is exact**: the consequences of a list of clauses are what follows from it. -/
@[simp] theorem mem_consequences {cs : List (Clause α)} {a : α} :
    a ∈ consequences cs ↔ Follows cs a := by
  constructor
  · exact Clause.follows_of_mem_chain (fun _ h => h) (by simp)
  · intro h
    induction h with
    | fire c mem _ ih => exact Clause.conclusion_mem_chain mem ih

end FormalLanguages
