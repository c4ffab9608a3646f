import FormalLanguages.Automaton.Basic
import FormalLanguages.Grammar.Basic
import FormalLanguages.Naming

/-! # The grammar of an automaton

The states become nonterminals and the transitions right-linear productions. A word that ends in an
accepting state may stop there: every transition into an accepting state also gives a production
without a nonterminal. An empty right-hand side is needed only for an accepting start, and accepting
states that cannot be left have nothing else. -/

namespace FormalLanguages.Automaton

/-- Names states after their written forms, each with a name that no earlier one has. -/
def nameStates (taken : SortedSet String) : List State → List (State × String)
  | [] => []
  | s :: rest =>
    -- different states may have the same written form
    let name := freshPrimed taken s.text
    (s, name) :: nameStates (taken.insert name) rest

/-- The states with the names of their nonterminals. -/
def stateNames (a : Automaton) : List (State × String) := nameStates ∅ a.states.toList

/-- The name that a state has been given; a state without one keeps its written form. -/
def nameIn (names : List (State × String)) (s : State) : String :=
  (names.lookup s).getD s.text

/-- The productions of one transition. -/
def productionsOf (a : Automaton) (name : State → String) (t : Transition) : List Production :=
  ⟨name t.source, [.terminal t.letter, .nonterminal (name t.target)]⟩ ::
    if t.target ∈ a.accepting then [⟨name t.source, [.terminal t.letter]⟩] else []

/-- The accepting states that need an empty right-hand side: the start, and those that cannot be
left. -/
def stops (a : Automaton) : SortedSet State :=
  a.accepting.filter fun s => s = a.start || a.isDeadEnd s

/-- The **right-linear grammar of an automaton**. -/
def toGrammar (a : Automaton) : Grammar :=
  let names := a.stateNames
  let name := nameIn names
  { start := name a.start
    nonterminals := SortedSet.ofList (names.map (·.2))
    terminals := a.alphabet
    productions :=
      a.stops.image (fun s => ⟨name s, []⟩) ∪ a.transitions.bind (a.productionsOf name) }

end FormalLanguages.Automaton
