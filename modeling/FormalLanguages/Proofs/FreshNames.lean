import FormalLanguages.Naming
import Mathlib.Order.Bounds.Defs

/-! # The search for a free name

A new name is found by a loop: as long as a candidate is taken, the next one is tried. The loop itself
does not say how often it turns (`Loops`). It ends because the candidates differ from each other and only
finitely many names are taken, and the one that it ends with is the first that is free
(`freshNames_least`). This holds of names with quote marks, where each turn adds a mark, and of a supply
of numbered names, where each turn counts on. -/

namespace FormalLanguages

universe u

/-! ## Loops -/

section Loops

variable {σ : Type u} {Goes : σ → Prop} {next : σ → σ} {turns : Nat} {s last : σ}

/-- A **loop** that takes a step as long as `Goes` holds: some number of turns lead from a state to the
first one at which it stops. -/
inductive Loops (Goes : σ → Prop) (next : σ → σ) : Nat → σ → σ → Prop
  /-- The loop stops at once. -/
  | stop {s : σ} (stops : ¬ Goes s) : Loops Goes next 0 s s
  /-- The loop takes a step and goes on from there. -/
  | turn {turns : Nat} {s last : σ} (goes : Goes s) (rest : Loops Goes next turns (next s) last) :
      Loops Goes next (turns + 1) s last

/-- A loop takes one course only. -/
theorem Loops.unique (h : Loops Goes next turns s last) {count : Nat} {other : σ}
    (h' : Loops Goes next count s other) : count = turns ∧ other = last := by
  induction h generalizing count with
  | stop stops =>
    cases h' with
    | stop _ => exact ⟨rfl, rfl⟩
    | turn goes _ => exact absurd goes stops
  | turn goes _ ih =>
    cases h' with
    | stop stops => exact absurd goes stops
    | turn _ rest =>
      obtain ⟨rfl, rfl⟩ := ih rest
      exact ⟨rfl, rfl⟩

variable (state : Nat → σ) {start k : Nat}

/-- A loop that goes through a sequence of states turns until the first one at which it stops. -/
theorem loops_of_forall (advances : ∀ k, next (state k) = state (k + 1))
    (stops : ¬ Goes (state (start + turns)))
    (goes : ∀ j, start ≤ j → j < start + turns → Goes (state j)) :
    Loops Goes next turns (state start) (state (start + turns)) := by
  induction turns generalizing start with
  | zero => exact .stop stops
  | succ turns ih =>
    have shift : start + (turns + 1) = start + 1 + turns := by omega
    rw [shift] at stops goes ⊢
    have rest := ih stops fun j le lt => goes j (by omega) lt
    refine .turn (goes start (by omega) (by omega)) ?_
    rw [advances]
    exact rest

/-- A loop that goes through a sequence of states **ends with the first** at which it stops. -/
theorem loops_iff_of_isLeast (advances : ∀ k, next (state k) = state (k + 1))
    (least : IsLeast {j | start ≤ j ∧ ¬ Goes (state j)} k) :
    Loops Goes next turns (state start) last ↔ start + turns = k ∧ last = state k := by
  obtain ⟨⟨le, stops⟩, first⟩ := least
  obtain ⟨count, rfl⟩ := Nat.exists_eq_add_of_le le
  have course : Loops Goes next count (state start) (state (start + count)) := by
    refine loops_of_forall state advances stops fun j le lt => Classical.byContradiction fun ends => ?_
    exact absurd (first ⟨le, ends⟩) (Nat.not_le.2 lt)
  constructor
  · intro h
    obtain ⟨rfl, rfl⟩ := course.unique h
    exact ⟨rfl, rfl⟩
  · rintro ⟨same, rfl⟩
    obtain rfl : turns = count := Nat.add_left_cancel same
    exact course

end Loops

/-! ## Candidates -/

/-- The search among candidates finds the **least number** of a free one. -/
theorem isLeast_firstFree {candidate : Nat → String}
    (distinct : ∀ i j, candidate i = candidate j → i = j) (taken : SortedSet String) (start : Nat) :
    IsLeast {j | start ≤ j ∧ candidate j ∉ taken} (firstFree candidate taken start) := by
  obtain ⟨free, ⟨le, _⟩, earlier⟩ := firstFree_spec distinct taken start
  refine ⟨⟨le, free⟩, ?_⟩
  rintro j ⟨le, free⟩
  refine Nat.le_of_not_lt fun lt => ?_
  exact free (earlier j le lt)

/-- The search passes over no more candidates than there are taken names. -/
theorem firstFree_le {candidate : Nat → String}
    (distinct : ∀ i j, candidate i = candidate j → i = j) (taken : SortedSet String) (start : Nat) :
    firstFree candidate taken start ≤ start + taken.size :=
  (firstFree_spec distinct taken start).2.1.2

@[simp] theorem primed_zero (base : String) : primed base 0 = base := by
  simp [primed]

/-- One quote mark more leads to the next name. -/
theorem push_primed (base : String) (k : Nat) :
    (primed base k).push '\'' = primed base (k + 1) := by
  apply String.toList_injective
  simp [primed, List.replicate_succ']

namespace NameSupply

/-- A supply whose number belongs to a name in use. -/
def IsTaken (supply : NameSupply) : Prop := numbered supply.count ∈ supply.taken

/-- A supply that has counted on by one. -/
def advance (supply : NameSupply) : NameSupply := { supply with count := supply.count + 1 }

end NameSupply

/-- **New names are found, and they are the first that are free.** The loop that adds quote marks to a
base ends for every base and all taken names, and the result has the least number of marks with which it
is not taken, which is at most the number of taken names. The loop that counts on ends for every supply;
the name that is given out has the least number above the last one for which it is free, and it is in use
from then on. -/
theorem freshNames_least :
    (∀ (taken : SortedSet String) (base : String), ∃ k, k ≤ taken.size ∧
        IsLeast {j | primed base j ∉ taken} k ∧ freshPrimed taken base = primed base k ∧
          ∀ turns name, Loops (· ∈ taken) (·.push '\'') turns base name ↔
            turns = k ∧ name = freshPrimed taken base) ∧
      ∀ supply : NameSupply, ∃ k, k ≤ supply.count + 1 + supply.taken.size ∧
        IsLeast {j | supply.count < j ∧ numbered j ∉ supply.taken} k ∧
          supply.next = (numbered k, ⟨supply.taken.insert (numbered k), k⟩) ∧
          ∀ turns last, Loops NameSupply.IsTaken NameSupply.advance turns supply.advance last ↔
            supply.count + 1 + turns = k ∧ last = ⟨supply.taken, k⟩ := by
  constructor
  · intro taken base
    have least := isLeast_firstFree (primed_injective base) taken 0
    have le := firstFree_le (primed_injective base) taken 0
    have course : ∀ turns name, Loops (· ∈ taken) (·.push '\'') turns (primed base 0) name ↔
        0 + turns = firstFree (primed base) taken 0 ∧ name = freshPrimed taken base :=
      fun turns name => loops_iff_of_isLeast (primed base) (push_primed base) least
    simp only [Nat.zero_le, true_and, Nat.zero_add, primed_zero] at least le course
    exact ⟨_, le, least, rfl, course⟩
  · intro supply
    have least := isLeast_firstFree numbered_injective supply.taken (supply.count + 1)
    have le := firstFree_le numbered_injective supply.taken (supply.count + 1)
    refine ⟨_, le, least, rfl, fun turns last => ?_⟩
    exact loops_iff_of_isLeast (NameSupply.mk supply.taken) (fun _ => rfl) least

/-- Numbers of names in use are skipped. -/
example : (NameSupply.mk (.ofList ["X2", "X3", "T_a"]) 1).next.1 = "X4" := by decide +kernel

end FormalLanguages
