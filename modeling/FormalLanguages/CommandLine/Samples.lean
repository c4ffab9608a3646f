import FormalLanguages.Automaton.Definition
import FormalLanguages.Grammar.Definition

/-! # Sample languages

The grammars and the automaton that the command line works on. -/

namespace FormalLanguages.CommandLine

/-- A **sample grammar**. -/
inductive Sample where
  /-- A right-linear grammar over six letters. -/
  | regular
  /-- A context-free grammar with a nullable and an unreachable nonterminal. -/
  | contextFree
  deriving DecidableEq

namespace Sample

/-- The sample with a given name. -/
def ofName? (name : String) : Option Sample :=
  if name = "regular" then some regular
  else if name = "context-free" then some contextFree
  else none

/-- Rules whose alternatives are given as texts. -/
def rulesOf (rules : List (String × List String)) : List (String × Grammar.RightSide) :=
  rules.flatMap fun (lhs, texts) => texts.map fun text => (lhs, .literal text)

/-- The definition of a sample. -/
def definition : Sample → Grammar.Definition
  | regular =>
    { start := "S"
      nonterminals := ["S", "B", "Q"]
      terminals := "abcdef".toList
      rules := rulesOf
        [("S", ["aB", "bQ"]), ("B", ["bB", "cB", "dQ", "e"]), ("Q", ["eQ", "fQ", "a"])] }
  | contextFree =>
    { start := "S"
      nonterminals := ["S", "A", "B", "C", "D", "E"]
      terminals := ['a', 'b']
      rules := rulesOf
        [("S", ["aB", "AC"]), ("A", ["a", "ASC", "BC", "aD"]), ("B", ["b", "bS"]),
          ("C", ["BA", "ε"]), ("E", ["aB"]), ("D", ["abC"])] }

/-- The grammar of a sample. -/
def grammar (sample : Sample) : Grammar := sample.definition.readable

end Sample

/-- The definition of the sample automaton. -/
def sampleAutomatonDefinition : Automaton.Definition where
  start := "q0"
  states := ["q0", "q1", "q2", "q3"]
  alphabet := ['a', 'b', 'c']
  transitions :=
    [("q0", 'a', ["q0", "q1"]), ("q1", 'c', ["q1"]), ("q1", 'b', ["q2"]), ("q2", 'b', ["q3"]),
      ("q3", 'a', ["q1"])]
  accepting := ["q2"]

/-- The **sample automaton**. -/
def sampleAutomaton : Automaton := sampleAutomatonDefinition.automaton

/-- Every sample grammar is well formed. -/
theorem Sample.wellFormed_grammar (sample : Sample) : sample.grammar.WellFormed := by
  cases sample <;> decide +kernel

/-- The sample automaton is well formed. -/
theorem wellFormed_sampleAutomaton : sampleAutomaton.WellFormed := by decide +kernel

end FormalLanguages.CommandLine
