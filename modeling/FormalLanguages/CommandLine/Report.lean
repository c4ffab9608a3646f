import FormalLanguages.Automaton.Determinize
import FormalLanguages.CommandLine.Arguments
import FormalLanguages.Grammar.Chart
import FormalLanguages.Hierarchy.Level
import FormalLanguages.RightLinear.OfAutomaton
import FormalLanguages.RightLinear.ToAutomaton
import FormalLanguages.Sampling.Derivation
import FormalLanguages.Text.Quoted

/-! # Running a command

A command prints its results and stops at the first failure: what has been printed until then
stays, the diagnostics of the failure go to the error output, and the status tells how it ended. -/

namespace FormalLanguages.CommandLine

/-- What a run leaves behind. -/
structure Outcome where
  /-- The exit status. -/
  status : Nat
  /-- The text on the standard output. -/
  output : String
  /-- The text on the error output. -/
  errors : String
  deriving DecidableEq

/-- A command in progress: what it prints, and the diagnostics that end it if it fails. -/
structure Report where
  /-- The text printed so far. -/
  output : String
  /-- The written diagnostics of a failure. -/
  failure : Option (List String) := none

namespace Report

/-- A report of some lines. -/
def lines (texts : List String) : Report := { output := String.join (texts.map (· ++ "\n")) }

/-- The report of a failure. -/
def fail {Fault : Type} [ToString Fault] (diagnostics : List (Diagnostic Fault)) : Report :=
  { output := "", failure := some (diagnostics.map Diagnostic.text) }

/-- Goes on with another report unless the first one failed. -/
def andThen (first second : Report) : Report :=
  match first.failure with
  | some _ => first
  | none => { second with output := first.output ++ second.output }

/-- The outcome of a report. -/
def outcome (report : Report) : Outcome where
  status := if report.failure.isSome then 1 else 0
  output := report.output
  errors := String.join ((report.failure.getD []).map (· ++ "\n"))

end Report

open Sampling

/-- Derives words one after another from one random source. -/
def reportDerivations (g : Grammar) (maxSteps : Nat) : Nat → Source → Report
  | 0, _ => .lines []
  | amount + 1, source =>
    match g.randomDerivation source maxSteps with
    | (.error diagnostic, _) => .fail [diagnostic]
    | (.ok derivation, source) =>
      (Report.lines [derivation.text, "  => " ++ derivation.word]).andThen
        (reportDerivations g maxSteps amount source)

/-- The automaton of a grammar. -/
def reportAutomaton (g : Grammar) : Report :=
  match g.toAutomaton with
  | .error diagnostics => .fail diagnostics
  | .ok automaton => .lines ["", automaton.text]

/-- How the decision on a word is shown. -/
def decisionText (accepted : Bool) : String := if accepted then "accepted" else "rejected"

/-- Whether a grammar in normal form generates each of some words. -/
def reportMembership (g : Grammar) : List String → Report
  | [] => .lines []
  | word :: rest =>
    match g.decideMembership word.toList with
    | .error diagnostic => .fail [diagnostic]
    | .ok accepted =>
      (Report.lines [Text.quoted word ++ ": " ++ decisionText accepted]).andThen
        (reportMembership g rest)

/-- An automaton and whether it is deterministic. -/
def describe (a : Automaton) : List String :=
  [a.text, "deterministic: " ++ (if a.isDeterministic then "true" else "false"), ""]

/-- The report of a command. -/
def Command.report (source : Source) : Command → Report
  | generate sample amount maxSteps =>
    let g := sample.grammar
    -- the automaton is only shown when all words could be derived
    ((Report.lines [g.text, ""]).andThen (reportDerivations g maxSteps amount source)).andThen
      (reportAutomaton g)
  | automaton words =>
    let nondeterministic := sampleAutomaton
    let deterministic := nondeterministic.determinize
    let decide (word : String) :=
      Text.quoted word ++ ": NFA " ++ decisionText (nondeterministic.accepts word.toList) ++
        ", DFA " ++ decisionText (deterministic.accepts word.toList)
    .lines <| describe nondeterministic ++ describe deterministic ++
      [nondeterministic.toGrammar.text, ""] ++ words.map decide
  | classify sample =>
    let g := sample.grammar
    .lines [g.text, "", Level.textOfClassification g.classify,
      "grammar of the automaton: " ++
        Level.textOfClassification sampleAutomaton.toGrammar.classify]
  | normalForm sample words =>
    let g := sample.grammar
    let reduced := g.normalForm
    (Report.lines [g.text, "", reduced.text, ""]).andThen (reportMembership reduced words)

/-- How the program is used. -/
def usage : String :=
  String.join <| [
    "Usage: chomsky [--seed SEED] COMMAND",
    "",
    "  generate [regular|context-free] [-n AMOUNT] [--max-steps STEPS]",
    "  automaton [-w WORD]...",
    "  classify [regular|context-free]",
    "  cnf [regular|context-free] [-w WORD]...",
    "  help [COMMAND]",
    "",
    "  -V, --version"].map (· ++ "\n")

/-- **Runs** the program with some arguments; `entropy` seeds the random source if no seed is
given. -/
def run (arguments : List String) (entropy : UInt64) : Outcome :=
  match understand arguments with
  | .error fault =>
    { status := 2, output := "", errors := "error: " ++ fault.message ++ "\n\n" ++ usage }
  | .ok .help => { status := 0, output := usage, errors := "" }
  | .ok .version => { status := 0, output := "chomsky 0.1.0\n", errors := "" }
  | .ok (.run command seed) =>
    let seed := (seed.map UInt64.ofNat).getD entropy
    (command.report (Source.ofSeed seed)).outcome

end FormalLanguages.CommandLine
