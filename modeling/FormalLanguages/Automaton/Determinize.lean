import FormalLanguages.Automaton.Basic
import FormalLanguages.Exploration
import FormalLanguages.SortedSet.Subsets

/-! # Determinization

The states that are active together are taken as one state. Only the non-empty sets of states that
can become active are built, starting from the set that holds the start alone. -/

namespace FormalLanguages.Automaton

/-- The states that can ever be active: the start and all targets. -/
def activatable (a : Automaton) : SortedSet State :=
  (a.transitions.image (·.target)).insert a.start

/-- The non-empty sets of states that become active from a set on some letter. -/
def successors (a : Automaton) (active : SortedSet State) : List (SortedSet State) :=
  (a.alphabet.toList.map (a.step active)).filter (!·.isEmpty)

/-- The sets of active states form a finite search space. -/
def subsets (a : Automaton) : SearchSpace (SortedSet State) where
  next := a.successors
  Inside := (· ⊆ a.activatable)
  closed := fun active _ next h target ht => by
    obtain ⟨letter, _, rfl⟩ := List.mem_map.1 (List.mem_filter.1 h).1
    obtain ⟨source, _, hst⟩ := mem_step.1 ht
    simp only [activatable, SortedSet.mem_insert, SortedSet.mem_image]
    exact .inr ⟨_, hst, rfl⟩
  bound := Nat.pow 2 a.activatable.size
  size_le := fun _ h => SortedSet.size_le_of_subsets h

/-- The sets of states that can become **active together**. -/
def activeSets (a : Automaton) : SortedSet (SortedSet State) :=
  a.subsets.explore {a.start} fun s hs => by
    simp [activatable, SortedSet.mem_singleton.1 hs]

/-- The transitions of the state that stands for a set of active states. -/
def mergedTransitions (a : Automaton) (active : SortedSet State) : List Transition :=
  a.alphabet.toList.filterMap fun letter =>
    let next := a.step active letter
    if next.isEmpty then none else some ⟨.ofSet active, letter, .ofSet next⟩

/-- The **deterministic automaton** whose states stand for the sets of states that can become
active together. -/
def determinize (a : Automaton) : Automaton :=
  let sets := a.activeSets
  { start := .ofSet {a.start}
    states := sets.image .ofSet
    alphabet := a.alphabet
    transitions := sets.bind a.mergedTransitions
    accepting := (sets.filter a.meetsAccepting).image .ofSet }

end FormalLanguages.Automaton
