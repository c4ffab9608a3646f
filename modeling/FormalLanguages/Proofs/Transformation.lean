import FormalLanguages.Grammar.Definition
import FormalLanguages.Proofs.Automaton.Integrity
import FormalLanguages.Proofs.Grammar.FixedPoints
import FormalLanguages.Proofs.Hierarchy.ContextFree
import FormalLanguages.Proofs.RightLinear.OfAutomaton
import FormalLanguages.Proofs.RightLinear.ToAutomaton

/-! # Runs of transformations

Grammars and automata are transformed in any order, as often as one likes. Whatever a definition
builds is well formed, each transformation keeps it so (`Subject.WellFormed.transform?`), and
therefore every run does (`Subject.WellFormed.run?`). To be well formed is all that is needed for a
grammar or an automaton to be intact: nothing is found wrong with it, and a grammar has a level. -/

namespace FormalLanguages

/-! ## What is expected of a result -/

/-- A grammar is **intact** when everything in it is declared and every rule has alternatives, so
that no check finds a fault and it is classified. -/
structure Grammar.Intact (g : Grammar) : Prop where
  /-- The start and all symbols of productions are declared. -/
  wellFormed : g.WellFormed
  /-- No rule is empty. -/
  exists_alternative : ∀ rule ∈ g.rules, ∃ rhs, rhs ∈ rule.2
  /-- The check of definitions finds nothing wrong. -/
  faults_eq_nil : g.faults = []
  /-- The grammar is of type 2 or of type 3. -/
  classify_eq_ok : g.classify = .ok .contextFree ∨ g.classify = .ok .regular

/-- An automaton is **intact** when everything in it is declared and every move has targets, so that
no check finds a fault. -/
structure Automaton.Intact (a : Automaton) : Prop where
  /-- The start, the accepting states, and the states and letters of transitions are declared. -/
  wellFormed : a.WellFormed
  /-- No move is empty. -/
  exists_target : ∀ move ∈ a.moves, ∃ target, target ∈ move.2
  /-- The check of definitions finds nothing wrong. -/
  faults_eq_nil : a.faults = []

/-- Every rule of a grammar has an alternative. -/
theorem Grammar.exists_alternative_of_mem_rules {g : Grammar} {rule : String × SortedSet Form}
    (mem : rule ∈ g.rules) : ∃ rhs, rhs ∈ rule.2 := by
  obtain ⟨lhs, left, rfl⟩ := List.mem_map.1 mem
  obtain ⟨rhs, given⟩ := Grammar.mem_leftSides.1 (SortedSet.mem_toList.1 left)
  exact ⟨rhs, Grammar.mem_alternatives.2 given⟩

/-- Well-formed grammars are intact. -/
theorem Grammar.WellFormed.intact {g : Grammar} (wf : g.WellFormed) : g.Intact where
  wellFormed := wf
  exists_alternative _ mem := Grammar.exists_alternative_of_mem_rules mem
  faults_eq_nil := Grammar.faults_eq_nil_iff.2 wf
  classify_eq_ok := Grammar.classify_of_wellFormed wf

/-- Well-formed automata are intact. -/
theorem Automaton.WellFormed.intact {a : Automaton} (wf : a.WellFormed) : a.Intact where
  wellFormed := wf
  exists_target _ mem := Automaton.exists_target_of_mem_moves mem
  faults_eq_nil := Automaton.faults_eq_nil_iff.2 wf

/-! ## The transformations -/

/-- What is transformed: a **grammar or an automaton**. -/
inductive Subject where
  /-- A grammar. -/
  | grammar (g : Grammar)
  /-- An automaton. -/
  | automaton (a : Automaton)

/-- The **passes** on the way to the normal form. -/
inductive Pass where
  /-- Isolates the start. -/
  | withFreshStart
  /-- Removes empty right-hand sides. -/
  | withoutErasing
  /-- Removes productions that only rename. -/
  | withoutUnits
  /-- Drops what is not reached. -/
  | reachablePart
  /-- Drops what derives no word. -/
  | productivePart
  /-- Splits right-hand sides up. -/
  | binarized

/-- Applies a pass. -/
def Pass.apply : Pass → Grammar → Grammar
  | withFreshStart, g => g.withFreshStart
  | withoutErasing, g => g.withoutErasing
  | withoutUnits, g => g.withoutUnits
  | reachablePart, g => g.reachablePart
  | productivePart, g => g.productivePart
  | binarized, g => g.binarized

/-- Passes keep declarations complete. -/
theorem Pass.wellFormed_apply {g : Grammar} (wf : g.WellFormed) (pass : Pass) :
    (pass.apply g).WellFormed := by
  cases pass with
  | withFreshStart => exact Grammar.wellFormed_withFreshStart wf
  | withoutErasing => exact Grammar.wellFormed_withoutErasing wf
  | withoutUnits => exact Grammar.wellFormed_withoutUnits wf
  | reachablePart => exact Grammar.wellFormed_reachablePart wf
  | productivePart => exact Grammar.wellFormed_productivePart wf
  | binarized => exact Grammar.wellFormed_binarized wf

/-- The passes that make up the normal form, in order. -/
def Pass.normalizing : List Pass :=
  [withFreshStart, withoutErasing, withoutUnits, reachablePart, productivePart, reachablePart,
    binarized]

/-- A **transformation** of a grammar or of an automaton. -/
inductive Transformation where
  /-- A single pass over a grammar. -/
  | pass (pass : Pass)
  /-- All passes to the normal form. -/
  | normalForm
  /-- The automaton of a right-linear grammar. -/
  | toAutomaton
  /-- The grammar of an automaton. -/
  | toGrammar
  /-- The deterministic automaton. -/
  | determinize

/-- Applies a transformation, unless it is meant for the other kind of subject or refuses a grammar
that is not right-linear. -/
def Subject.transform? : Subject → Transformation → Option Subject
  | grammar g, .pass pass => some (grammar (pass.apply g))
  | grammar g, .normalForm => some (grammar g.normalForm)
  | grammar g, .toAutomaton =>
    match g.toAutomaton with
    | .ok a => some (automaton a)
    | .error _ => none
  | automaton a, .toGrammar => some (grammar a.toGrammar)
  | automaton a, .determinize => some (automaton a.determinize)
  | _, _ => none

/-- **Runs** transformations one after another, as long as they apply. -/
def Subject.run? (s : Subject) (steps : List Transformation) : Option Subject :=
  steps.foldlM Subject.transform? s

/-- A transformation as steps that build one result each: the normal form is reached pass by
pass. -/
def Transformation.expanded : Transformation → List Transformation
  | normalForm => Pass.normalizing.map pass
  | other => [other]

namespace Subject

variable {s t : Subject} {step : Transformation} {steps : List Transformation}

/-- A subject is **built** when it is the result of a definition. -/
inductive Built : Subject → Prop
  /-- The grammar that a definition builds. -/
  | grammar {d : Grammar.Definition} {g : Grammar} (built : d.build = .ok g) : Built (.grammar g)
  /-- The automaton that a definition builds. -/
  | automaton {d : Automaton.Definition} {a : Automaton} (built : d.build = .ok a) :
    Built (.automaton a)

/-- A subject is **well formed** when the grammar or automaton is. -/
def WellFormed : Subject → Prop
  | .grammar g => g.WellFormed
  | .automaton a => a.WellFormed

/-- A subject is **intact** when the grammar or automaton is. -/
def Intact : Subject → Prop
  | .grammar g => g.Intact
  | .automaton a => a.Intact

/-- Well-formed subjects are intact. -/
theorem WellFormed.intact (wf : s.WellFormed) : s.Intact := by
  cases s with
  | grammar g => exact Grammar.WellFormed.intact wf
  | automaton a => exact Automaton.WellFormed.intact wf

/-! ## Runs -/

/-- What a definition builds is well formed. -/
theorem Built.wellFormed (built : s.Built) : s.WellFormed := by
  cases built with
  | grammar built =>
    obtain ⟨_, wf, rfl⟩ := Grammar.Definition.build_eq_ok_iff.1 built
    exact wf
  | automaton built =>
    obtain ⟨wf, rfl⟩ := Automaton.Definition.build_eq_ok_iff.1 built
    exact wf

/-- **A step** keeps a subject well formed, whichever transformation it is. -/
theorem WellFormed.transform? (wf : s.WellFormed) (applied : s.transform? step = some t) :
    t.WellFormed := by
  cases s with
  | grammar g =>
    cases step with
    | pass pass =>
      cases applied
      exact Pass.wellFormed_apply wf pass
    | normalForm =>
      cases applied
      exact Grammar.wellFormed_normalForm wf
    | toAutomaton =>
      simp only [Subject.transform?] at applied
      split at applied
      · rename_i a made
        obtain ⟨_, rfl⟩ := Grammar.toAutomaton_eq_ok_iff.1 made
        cases applied
        exact Grammar.wellFormed_linearAutomaton wf
      -- a grammar that is not right-linear is refused
      · cases applied
    -- the others are for automata
    | toGrammar => cases applied
    | determinize => cases applied
  | automaton a =>
    cases step with
    -- an automaton has no passes and no normal form, and it is no grammar to convert
    | pass pass => cases applied
    | normalForm => cases applied
    | toAutomaton => cases applied
    | toGrammar =>
      cases applied
      exact Automaton.wellFormed_toGrammar wf
    | determinize =>
      cases applied
      exact Automaton.wellFormed_determinize a

/-- A run begins with its first step. -/
theorem run?_cons : s.run? (step :: steps) = (s.transform? step).bind (·.run? steps) := rfl

/-- A run is made of an earlier and a later part. -/
theorem run?_append {before after : List Transformation} :
    s.run? (before ++ after) = (s.run? before).bind (·.run? after) :=
  List.foldlM_append

/-- **A run** keeps a subject well formed. -/
theorem WellFormed.run? (wf : s.WellFormed) (run : s.run? steps = some t) : t.WellFormed := by
  induction steps generalizing s with
  | nil =>
    cases run
    exact wf
  | cons step rest ih =>
    rw [run?_cons] at run
    obtain ⟨next, applied, run⟩ := Option.bind_eq_some_iff.1 run
    exact ih (wf.transform? applied) run

/-- A run of a single step is the step. -/
theorem run?_singleton : s.run? [step] = s.transform? step := by
  rw [run?_cons]
  exact Option.bind_fun_some _

/-- The steps that a transformation stands for come to the same. -/
theorem run?_expanded : s.run? step.expanded = s.transform? step := by
  cases step with
  -- the normal form is defined as these passes one after another; an automaton refuses both ways
  | normalForm => cases s <;> rfl
  | pass pass => exact run?_singleton
  | toAutomaton => exact run?_singleton
  | toGrammar => exact run?_singleton
  | determinize => exact run?_singleton

/-- A run is the run of all the steps that its transformations stand for. -/
theorem run?_flatMap_expanded : s.run? (steps.flatMap Transformation.expanded) = s.run? steps := by
  induction steps generalizing s with
  | nil => rfl
  | cons step rest ih =>
    rw [List.flatMap_cons, run?_append, run?_expanded, run?_cons]
    simp only [ih]

/-- **Runs of transformations lead to intact results**: whatever a definition builds and whichever
transformations are run on it in whichever order, the grammar or automaton at the end is intact, and
so is every one that is built on the way, those between the passes to a normal form included. -/
theorem intact_of_run (built : s.Built) (run : s.run? steps = some t) :
    t.Intact ∧ ∀ before after, steps.flatMap Transformation.expanded = before ++ after →
      ∃ u, s.run? before = some u ∧ u.Intact := by
  refine ⟨(built.wellFormed.run? run).intact, fun before after split => ?_⟩
  rw [← run?_flatMap_expanded, split, run?_append] at run
  obtain ⟨u, early, _⟩ := Option.bind_eq_some_iff.1 run
  exact ⟨u, early, (built.wellFormed.run? early).intact⟩

/-- The definition of a right-linear grammar with a nonterminal that has no rules. -/
def repeating : Grammar.Definition where
  start := "S"
  nonterminals := ["S", "A", "C"]
  terminals := ['a', 'b']
  rules := [
    ("S", .symbols [.terminal 'a', .nonterminal "S"]),
    ("S", .symbols [.terminal 'a', .nonterminal "A"]),
    ("S", .symbols []),
    ("A", .symbols [.terminal 'b', .nonterminal "C"]),
    ("A", .symbols [.terminal 'b'])]

/-- The repeating grammar is built, and the way over its deterministic automaton to a normal form
leads to an intact grammar, as it does when it is cut short. -/
theorem intact_of_run_repeating :
    ∃ g, repeating.build = .ok g ∧
      let normal := g.linearAutomaton.determinize.toGrammar.normalForm
      (Subject.grammar g).run? [.toAutomaton, .determinize, .toGrammar, .normalForm] =
          some (.grammar normal) ∧
        normal.Intact ∧
        ∃ u, (Subject.grammar g).run? [.toAutomaton, .determinize] = some u ∧ u.Intact := by
  have built : repeating.build = .ok repeating.readable := by rfl
  have run : (Subject.grammar repeating.readable).run?
      [.toAutomaton, .determinize, .toGrammar, .normalForm] =
        some (.grammar repeating.readable.linearAutomaton.determinize.toGrammar.normalForm) := by
    rfl
  obtain ⟨intact, early⟩ := intact_of_run (.grammar built) run
  exact ⟨_, built, run, intact, early _ _ rfl⟩

end Subject

end FormalLanguages
