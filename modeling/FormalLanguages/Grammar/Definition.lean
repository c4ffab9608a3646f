import FormalLanguages.Diagnostic
import FormalLanguages.Grammar.Basic
import FormalLanguages.Literal

/-! # Defining a grammar

A `Grammar.Definition` lists declarations and rules in the order in which they were given; the
right-hand side of a rule is a form or its written form. `Grammar.Definition.build` turns it into a
grammar or reports everything that is wrong with it. The faults come in two parts: first the texts
that cannot be read, in the order given, and then the undeclared symbols, in the order of rules. -/

namespace FormalLanguages.Grammar

/-- What can be wrong with a grammar. -/
inductive Fault where
  /-- The start is not a declared nonterminal. -/
  | unknownStart (name : String)
  /-- A name that is not a declared nonterminal has rules. -/
  | unknownLhs (name : String)
  /-- A right-hand side uses a nonterminal that is not declared. -/
  | unknownNonterminal (name : String)
  /-- A right-hand side uses a letter that is not declared. -/
  | unknownTerminal (letter : Char)
  /-- A bracket in the text of a right-hand side is never closed. -/
  | unclosedBracket
  deriving DecidableEq

/-- The message of a fault. -/
def Fault.message : Fault → String
  | unknownStart n => "Start symbol `" ++ n ++ "` is not a declared nonterminal"
  | unknownLhs n => "Rule given for undeclared nonterminal `" ++ n ++ "`"
  | unknownNonterminal n => "Could not find declaration for nonterminal `" ++ n ++ "`"
  | unknownTerminal c => "Terminal `" ++ c.toString ++ "` is not in the alphabet"
  | unclosedBracket => "Unmatched `<`"

instance : ToString Fault := ⟨Fault.message⟩

/-- The fault of using a symbol that the grammar does not declare. -/
def unknown? (g : Grammar) (s : Symbol) : Option Fault :=
  if g.Declares s then none
  else match s with
    | .terminal c => some (.unknownTerminal c)
    | .nonterminal n => some (.unknownNonterminal n)

@[simp] theorem unknown?_eq_none {g : Grammar} {s : Symbol} :
    g.unknown? s = none ↔ g.Declares s := by
  unfold unknown?
  split
  · simp [*]
  · cases s <;> simp_all

/-- One diagnostic for each undeclared occurrence on the right of a production, from left to
right. -/
def faultsOfProduction (g : Grammar) (p : Production) : List (Diagnostic Fault) :=
  (p.rhs.filterMap g.unknown?).map fun fault => ⟨.production p, fault⟩

/-- The diagnostics of one rule: an undeclared left-hand side, then the undeclared symbols of each
alternative. -/
def faultsOfRule (g : Grammar) (rule : String × SortedSet Form) : List (Diagnostic Fault) :=
  (if rule.1 ∈ g.nonterminals then [] else [⟨.definition, .unknownLhs rule.1⟩]) ++
    rule.2.toList.flatMap fun rhs => g.faultsOfProduction ⟨rule.1, rhs⟩

/-- Everything that keeps a grammar from being well formed. -/
def faults (g : Grammar) : List (Diagnostic Fault) :=
  (if g.start ∈ g.nonterminals then [] else [⟨.definition, .unknownStart g.start⟩]) ++
    g.rules.flatMap g.faultsOfRule

/-- A grammar is well formed just when it has no faults. -/
theorem faults_eq_nil_iff {g : Grammar} : g.faults = [] ↔ g.WellFormed := by
  simp only [faults, faultsOfRule, faultsOfProduction, rules, wellFormed_iff,
    List.append_eq_nil_iff, ite_eq_left_iff, imp_false, Classical.not_not, List.flatMap_eq_nil_iff,
    List.mem_map, List.map_eq_nil_iff, List.filterMap_eq_nil_iff, unknown?_eq_none,
    SortedSet.mem_toList, mem_leftSides, List.cons_ne_nil]
  constructor
  · rintro ⟨hs, h⟩
    refine ⟨hs, fun p hp => ?_, fun p hp s hsp => ?_⟩
    · exact (h _ ⟨p.lhs, ⟨p.rhs, hp⟩, rfl⟩).1
    · exact (h _ ⟨p.lhs, ⟨p.rhs, hp⟩, rfl⟩).2 p.rhs (mem_alternatives.2 hp) s hsp
  · rintro ⟨hs, hl, hr⟩
    refine ⟨hs, ?_⟩
    rintro _ ⟨lhs, ⟨rhs, h⟩, rfl⟩
    exact ⟨hl _ h, fun rhs h' s hsr => hr _ (mem_alternatives.1 h') s hsr⟩

/-- The right-hand side of a rule as it is given. -/
inductive RightSide where
  /-- The written form of a right-hand side. -/
  | literal (text : String)
  /-- The symbols themselves. -/
  | symbols (form : Form)

/-- The **definition of a grammar**, as it is given. -/
structure Definition where
  /-- The name of the start. -/
  start : String
  /-- The nonterminals that are declared. -/
  nonterminals : List String
  /-- The terminals that are declared. -/
  terminals : List Char
  /-- The rules, one alternative each. -/
  rules : List (String × RightSide)

namespace Definition

/-- The production that a rule stands for, or the fault in its text. -/
def production (d : Definition) (rule : String × RightSide) :
    Except (Diagnostic Fault) Production :=
  match rule.2 with
  | .symbols form => .ok ⟨rule.1, form⟩
  | .literal text =>
    match Form.read? (SortedSet.ofList d.nonterminals) text with
    | some form => .ok ⟨rule.1, form⟩
    -- the text is shown as it was given, since there is no form to show
    | none => .error ⟨.literal rule.1 text, .unclosedBracket⟩

/-- The faults in the texts of the rules, in the order given. -/
def unreadable (d : Definition) : List (Diagnostic Fault) :=
  d.rules.filterMap fun rule =>
    match d.production rule with
    | .ok _ => none
    | .error e => some e

/-- The grammar of all rules that can be read, whether or not it is well formed. -/
def readable (d : Definition) : Grammar where
  start := d.start
  nonterminals := SortedSet.ofList d.nonterminals
  terminals := SortedSet.ofList d.terminals
  productions := SortedSet.ofList (d.rules.filterMap fun rule => (d.production rule).toOption)

/-- **Builds** the defined grammar, or reports all faults of the definition. -/
def build (d : Definition) : Except (List (Diagnostic Fault)) Grammar :=
  match d.unreadable ++ d.readable.faults with
  | [] => .ok d.readable
  | faults => .error faults

/-- **A definition builds** its grammar when all its rules can be read and the grammar is well
formed. -/
theorem build_eq_ok_iff {d : Definition} {g : Grammar} :
    d.build = .ok g ↔ d.unreadable = [] ∧ d.readable.WellFormed ∧ d.readable = g := by
  rw [← faults_eq_nil_iff, ← and_assoc, ← List.append_eq_nil_iff, build]
  split
  · rename_i none
    simp [none]
  · rename_i some
    exact iff_of_false nofun fun built => some built.1

/-- Otherwise everything that is wrong is reported. -/
theorem build_eq_error_iff {d : Definition} {errors : List (Diagnostic Fault)} :
    d.build = .error errors ↔
      d.unreadable ++ d.readable.faults ≠ [] ∧ d.unreadable ++ d.readable.faults = errors := by
  rw [build]
  split
  · rename_i none
    exact iff_of_false nofun fun failed => failed.1 none
  · rename_i some
    rw [Except.error.injEq, and_iff_right some]

end Definition

end FormalLanguages.Grammar
