import FormalLanguages.Automaton.Basic
import FormalLanguages.Automaton.Definition
import FormalLanguages.Automaton.Determinize
import FormalLanguages.Automaton.Run
import FormalLanguages.Automaton.State
import FormalLanguages.CommandLine.Arguments
import FormalLanguages.CommandLine.Report
import FormalLanguages.CommandLine.Samples
import FormalLanguages.Diagnostic
import FormalLanguages.Exploration
import FormalLanguages.Grammar.Basic
import FormalLanguages.Grammar.Binary
import FormalLanguages.Grammar.Chart
import FormalLanguages.Grammar.Definition
import FormalLanguages.Grammar.FreshStart
import FormalLanguages.Grammar.Language
import FormalLanguages.Grammar.NormalForm
import FormalLanguages.Grammar.Nullable
import FormalLanguages.Grammar.Production
import FormalLanguages.Grammar.Unit
import FormalLanguages.Grammar.Useful
import FormalLanguages.Hierarchy.Level
import FormalLanguages.Hierarchy.PhraseGrammar
import FormalLanguages.Inference
import FormalLanguages.Lexicographic
import FormalLanguages.Literal
import FormalLanguages.Main
import FormalLanguages.Naming
import FormalLanguages.RightLinear.OfAutomaton
import FormalLanguages.RightLinear.ToAutomaton
import FormalLanguages.Sampling.Derivation
import FormalLanguages.Sampling.KeyStream
import FormalLanguages.Sampling.Source
import FormalLanguages.SortedSet
import FormalLanguages.SortedSet.Subsets
import FormalLanguages.Symbol
import FormalLanguages.Text.Blank
import FormalLanguages.Text.CodeRanges
import FormalLanguages.Text.Extending
import FormalLanguages.Text.Quoted
import FormalLanguages.Text.Unprintable
import FormalLanguages.Proofs.Automaton.Acceptance
import FormalLanguages.Proofs.Automaton.Definition
import FormalLanguages.Proofs.Automaton.Determinization
import FormalLanguages.Proofs.Automaton.Identity
import FormalLanguages.Proofs.Automaton.Integrity
import FormalLanguages.Proofs.Automaton.Reversal
import FormalLanguages.Proofs.Automaton.Wrapping
import FormalLanguages.Proofs.Grammar.Binarization
import FormalLanguages.Proofs.Grammar.BinarizationWords
import FormalLanguages.Proofs.Grammar.Chart
import FormalLanguages.Proofs.Grammar.Definition
import FormalLanguages.Proofs.Grammar.FixedPoints
import FormalLanguages.Proofs.Grammar.FreshStart
import FormalLanguages.Proofs.Grammar.Integrity
import FormalLanguages.Proofs.Grammar.Leftmost
import FormalLanguages.Proofs.Grammar.NormalOutcome
import FormalLanguages.Proofs.Grammar.NormalShape
import FormalLanguages.Proofs.Grammar.Normalization
import FormalLanguages.Proofs.Grammar.Preservation
import FormalLanguages.Proofs.Grammar.Renaming
import FormalLanguages.Proofs.Grammar.Reversal
import FormalLanguages.Proofs.Grammar.Sharing
import FormalLanguages.Proofs.Grammar.Usefulness
import FormalLanguages.Proofs.Grammar.Vanishing
import FormalLanguages.Proofs.Grammar.Yield
import FormalLanguages.Proofs.Hierarchy.Classification
import FormalLanguages.Proofs.Hierarchy.ContextFree
import FormalLanguages.Proofs.Hierarchy.ContextSensitive
import FormalLanguages.Proofs.Hierarchy.IdleRules
import FormalLanguages.Proofs.Hierarchy.Integrity
import FormalLanguages.Proofs.Hierarchy.Level
import FormalLanguages.Proofs.Hierarchy.OfAutomaton
import FormalLanguages.Proofs.Hierarchy.Regular
import FormalLanguages.Proofs.Listing
import FormalLanguages.Proofs.Literal
import FormalLanguages.Proofs.Naming
import FormalLanguages.Proofs.RightLinear.Membership
import FormalLanguages.Proofs.RightLinear.OfAutomaton
import FormalLanguages.Proofs.RightLinear.ToAutomaton
import FormalLanguages.Proofs.RightLinear.Yield
import FormalLanguages.Proofs.Sampling.Budget
import FormalLanguages.Proofs.Sampling.Choice
import FormalLanguages.Proofs.Sampling.Completeness
import FormalLanguages.Proofs.Sampling.Derivation
import FormalLanguages.Proofs.Sampling.Length
import FormalLanguages.Proofs.Sampling.Soundness
import FormalLanguages.Proofs.Transformation
import FormalLanguages.Proofs.Inference
import FormalLanguages.Proofs.Exploration
import FormalLanguages.Proofs.Grammar.Closures
import FormalLanguages.Proofs.Grammar.ChartBounds
import FormalLanguages.Proofs.FreshNames
import FormalLanguages.Proofs.Grammar.Thinnings
