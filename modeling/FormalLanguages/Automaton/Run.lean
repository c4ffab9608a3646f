import FormalLanguages.Automaton.Basic

/-! # Runs of an automaton

A run follows one transition for each letter of a word. `Automaton.activeAfter` follows all runs at
once: the states that are active after a word are the ends of the runs on it. -/

namespace FormalLanguages.Automaton

/-- **A run**: transitions lead from a state to another along the letters of a word. -/
inductive Run (a : Automaton) : State → List Char → State → Prop
  /-- The empty word leads nowhere else. -/
  | nil (s : State) : Run a s [] s
  /-- A transition on the first letter, and then a run on the rest. -/
  | cons {s t u : State} {letter : Char} {rest : List Char}
      (first : ⟨s, letter, t⟩ ∈ a.transitions) (others : Run a t rest u) :
      Run a s (letter :: rest) u

/-- A word is **recognized** when some run on it ends in an accepting state. -/
def Recognizes (a : Automaton) (word : List Char) : Prop :=
  ∃ s, s ∈ a.accepting ∧ a.Run a.start word s

/-- The states that are active after a word. -/
def activeAfter (a : Automaton) (active : SortedSet State) (word : List Char) : SortedSet State :=
  word.foldl a.step active

@[simp] theorem activeAfter_nil (a : Automaton) (active : SortedSet State) :
    a.activeAfter active [] = active := rfl

@[simp] theorem activeAfter_cons (a : Automaton) (active : SortedSet State) (letter : Char)
    (rest : List Char) :
    a.activeAfter active (letter :: rest) = a.activeAfter (a.step active letter) rest := rfl

/-- The states active after a word are the ends of the runs on it. -/
theorem mem_activeAfter {a : Automaton} {active : SortedSet State} {word : List Char}
    {t : State} : t ∈ a.activeAfter active word ↔ ∃ s, s ∈ active ∧ a.Run s word t := by
  induction word generalizing active with
  | nil =>
    constructor
    · intro h
      exact ⟨t, h, .nil t⟩
    · rintro ⟨s, hs, h⟩
      cases h
      exact hs
  | cons letter rest ih =>
    rw [activeAfter_cons, ih]
    constructor
    · rintro ⟨u, hu, run⟩
      obtain ⟨s, hs, first⟩ := mem_step.1 hu
      exact ⟨s, hs, .cons first run⟩
    · rintro ⟨s, hs, run⟩
      cases run with
      | cons first run => exact ⟨_, mem_step.2 ⟨s, hs, first⟩, run⟩

/-- From a single active state a word leads to the ends of the runs from this state. -/
theorem mem_activeAfter_singleton {a : Automaton} {word : List Char} {s t : State} :
    t ∈ a.activeAfter {s} word ↔ a.Run s word t := by
  simp only [mem_activeAfter, SortedSet.mem_singleton, exists_eq_left]

end FormalLanguages.Automaton
