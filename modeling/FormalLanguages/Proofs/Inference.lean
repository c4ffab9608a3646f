import FormalLanguages.Inference

/-! # Rounds of forward chaining

A loop that adds, round after round, all that what is known allows ends with the first round that
finds nothing new: `Saturates` counts its rounds. What such a loop ends with is determined by what it
starts with (`Saturates.unique`), and every round but the last adds a member
(`Saturates.size_add_le`). Forward chaining over clauses is such a loop, although no clause fires twice
in it, so `consequences` is what the rounds end with (`saturates_consequences`). -/

namespace FormalLanguages

universe u

section Rounds

variable {α : Type u} [Ord α] {Adds : SortedSet α → α → Prop}

/-- **Saturation**: `rounds` rounds lead from what is `known` to `last`. Each of them adds whatever
`Adds` allows, and a further round would find nothing new. -/
inductive Saturates (Adds : SortedSet α → α → Prop) : Nat → SortedSet α → SortedSet α → Prop
  /-- Nothing new is found. -/
  | done {known : SortedSet α} (closed : ∀ a, Adds known a → a ∈ known) :
      Saturates Adds 0 known known
  /-- Something new is found, and from then on all that is found is known. -/
  | round {rounds : Nat} {known next last : SortedSet α} {a : α} (found : Adds known a)
      (new : a ∉ known) (grown : ∀ b, b ∈ next ↔ b ∈ known ∨ Adds known b)
      (rest : Saturates Adds rounds next last) : Saturates Adds (rounds + 1) known last

/-- Every round makes what is known larger. -/
theorem Saturates.size_add_le [Std.ReflOrd α] {rounds : Nat} {known last : SortedSet α}
    (h : Saturates Adds rounds known last) : known.size + rounds ≤ last.size := by
  induction h with
  | done _ => exact Nat.le_refl _
  | @round rounds known next last a found new grown _ ih =>
    have larger : known.size < next.size :=
      SortedSet.size_lt_of_subset (fun b hb => (grown b).2 (.inl hb)) ((grown a).2 (.inr found)) new
    omega

variable [Std.LawfulEqOrd α] [Std.TransOrd α]

/-- **Rounds are determined**: from what is known they can go on in one way only. -/
theorem Saturates.unique {rounds count : Nat} {known last other : SortedSet α}
    (h : Saturates Adds rounds known last) (h' : Saturates Adds count known other) :
    count = rounds ∧ other = last := by
  induction h generalizing count with
  | done closed =>
    cases h' with
    | done _ => exact ⟨rfl, rfl⟩
    | round found new _ _ => exact absurd (closed _ found) new
  | round found new grown _ ih =>
    cases h' with
    | done closed => exact absurd (closed _ found) new
    | round _ _ grown' rest =>
      have next : _ = _ := SortedSet.ext fun b => (grown' b).trans (grown b).symm
      rw [next] at rest
      obtain ⟨rfl, rfl⟩ := ih rest
      exact ⟨rfl, rfl⟩

end Rounds

/-! ## Rounds over clauses -/

namespace Clause

variable {α : Type u} [Ord α] {cs waiting : List (Clause α)} {known : SortedSet α}

/-- Some clause **concludes** `a` from what is known. -/
def Concludes (cs : List (Clause α)) (known : SortedSet α) (a : α) : Prop :=
  ∃ c ∈ cs, c.conclusion = a ∧ ∀ b ∈ c.premises, b ∈ known

/-- **Every clause is accounted for**: it is still waiting, or what it concludes is known. -/
structure Accounted (cs waiting : List (Clause α)) (known : SortedSet α) : Prop where
  /-- Only clauses of the list are waiting. -/
  mem_of_waiting : ∀ c ∈ waiting, c ∈ cs
  /-- A clause that is not waiting has fired. -/
  waiting_or_fired : ∀ c ∈ cs, c ∈ waiting ∨ c.conclusion ∈ known

variable [DecidableEq α]

/-- When no clause is ready, all that can be concluded is known. -/
theorem Accounted.mem_of_concludes (h : Accounted cs waiting known) (none : ready known waiting = [])
    {a : α} (found : Concludes cs known a) : a ∈ known := by
  obtain ⟨c, hc, rfl, holds⟩ := found
  rcases h.waiting_or_fired c hc with waits | fired
  · have now := mem_ready.2 ⟨waits, holds⟩
    rw [none] at now
    exact absurd now List.not_mem_nil
  · exact fired

variable [Std.LawfulEqOrd α] [Std.TransOrd α]

/-- What is known after every ready clause has fired. -/
def grow (known : SortedSet α) (waiting : List (Clause α)) : SortedSet α :=
  SortedSet.ofList ((ready known waiting).map (·.conclusion)) ∪ known

theorem chain_of_ready (some : ready known waiting ≠ []) :
    chain known waiting = chain (grow known waiting) (blocked known waiting) := by
  rw [chain, dif_neg some]
  rfl

/-- Firing the clauses that are waiting adds what all clauses conclude. -/
theorem Accounted.mem_grow (h : Accounted cs waiting known) {a : α} :
    a ∈ grow known waiting ↔ a ∈ known ∨ Concludes cs known a := by
  simp only [grow, SortedSet.mem_union, SortedSet.mem_ofList, List.mem_map, mem_ready]
  constructor
  · rintro (⟨c, ⟨waits, holds⟩, rfl⟩ | old)
    · exact .inr ⟨c, h.mem_of_waiting c waits, rfl, holds⟩
    · exact .inl old
  · rintro (old | ⟨c, hc, rfl, holds⟩)
    · exact .inr old
    · rcases h.waiting_or_fired c hc with waits | fired
      · exact .inl ⟨c, ⟨waits, holds⟩, rfl⟩
      · exact .inr fired

/-- Clauses stay accounted for when the ready ones fire and the others go on waiting. -/
theorem Accounted.blocked (h : Accounted cs waiting known) :
    Accounted cs (blocked known waiting) (grow known waiting) where
  mem_of_waiting c hc := h.mem_of_waiting c (mem_blocked.1 hc).1
  waiting_or_fired c hc := by
    rcases h.waiting_or_fired c hc with waits | fired
    · by_cases holds : ∀ a ∈ c.premises, a ∈ known
      · exact .inr (h.mem_grow.2 (.inr ⟨c, hc, rfl, holds⟩))
      · exact .inl (mem_blocked.2 ⟨waits, by simpa using holds⟩)
    · exact .inr (h.mem_grow.2 (.inl fired))

/-- If nothing new can be concluded, firing changes nothing. -/
theorem Accounted.grow_eq (h : Accounted cs waiting known)
    (closed : ∀ a, Concludes cs known a → a ∈ known) : grow known waiting = known := by
  ext a
  rw [h.mem_grow]
  exact or_iff_left_of_imp (closed a)

/-- **Chaining runs through the rounds.** -/
theorem Accounted.exists_saturates (h : Accounted cs waiting known) :
    ∃ rounds, Saturates (Concludes cs) rounds known (chain known waiting) := by
  induction known, waiting using chain.induct with
  | case1 known waiting none =>
    rw [chain, dif_pos none]
    exact ⟨0, .done fun a => h.mem_of_concludes none⟩
  | case2 known waiting some ih =>
    rw [chain_of_ready some]
    obtain ⟨rounds, rest⟩ : ∃ rounds, Saturates (Concludes cs) rounds (grow known waiting)
        (chain (grow known waiting) (Clause.blocked known waiting)) := ih h.blocked
    by_cases news : ∃ a, Concludes cs known a ∧ a ∉ known
    · obtain ⟨a, found, new⟩ := news
      exact ⟨rounds + 1, .round found new (fun b => h.mem_grow) rest⟩
    -- the clauses that are ready bring no news: others have led to their conclusions before
    · have closed : ∀ a, Concludes cs known a → a ∈ known := fun a found =>
        Classical.byContradiction fun new => news ⟨a, found, new⟩
      rw [h.grow_eq closed] at rest ⊢
      exact ⟨rounds, rest⟩

end Clause

variable {α : Type u} [Ord α] [Std.LawfulEqOrd α] [Std.TransOrd α] [DecidableEq α]

/-- **The consequences are what the rounds end with**: a loop that adds all that some clause concludes
has one run, with no more rounds than there are elements that can be concluded. -/
theorem saturates_consequences {cs : List (Clause α)} {Adds : SortedSet α → α → Prop}
    (same : ∀ known a, Clause.Concludes cs known a ↔ Adds known a) {candidates : SortedSet α}
    (inside : consequences cs ⊆ candidates) :
    ∃ rounds, rounds ≤ candidates.size ∧ ∀ count last,
      Saturates Adds count ∅ last ↔ count = rounds ∧ last = consequences cs := by
  have adds : Clause.Concludes cs = Adds := by
    funext known a
    exact propext (same known a)
  obtain ⟨rounds, run⟩ : ∃ rounds,
      Saturates (Clause.Concludes cs) rounds ∅ (consequences cs) :=
    Clause.Accounted.exists_saturates ⟨fun _ h => h, fun _ h => .inl h⟩
  rw [adds] at run
  refine ⟨rounds, ?_, fun count last => ⟨run.unique, ?_⟩⟩
  · calc rounds ≤ (∅ : SortedSet α).size + rounds := Nat.le_add_left _ _
      _ ≤ (consequences cs).size := run.size_add_le
      _ ≤ candidates.size := SortedSet.size_le_of_subset inside
  · rintro ⟨rfl, rfl⟩
    exact run

end FormalLanguages
