import FormalLanguages.Grammar.Definition
import FormalLanguages.Proofs.Listing

/-! # What building a grammar accepts and reports

A definition is sound when its texts can be read and it declares its start and all symbols of its
rules (`Grammar.Definition.Sound`). It is built just when it is sound, and otherwise the report
lists in order what is wrong at each spot of the definition: first the texts, as they were given,
then the start, and then the left-hand sides and the symbols of the productions, in the order of
productions (`Grammar.Definition.build_exact`). -/

namespace FormalLanguages.Grammar

/-- The fault of using a symbol that is not declared. -/
def Fault.ofUndeclared : Symbol → Fault
  | .terminal c => .unknownTerminal c
  | .nonterminal n => .unknownNonterminal n

/-- Undeclared symbols are told by name. -/
theorem unknown?_eq_some_iff {g : Grammar} {s : Symbol} {fault : Fault} :
    g.unknown? s = some fault ↔ ¬ g.Declares s ∧ .ofUndeclared s = fault := by
  unfold unknown?
  split
  · rename_i declared
    exact iff_of_false (by simp) fun h => h.1 declared
  · rename_i undeclared
    rw [and_iff_right undeclared]
    cases s <;> simp [Fault.ofUndeclared]

namespace Definition

variable {d : Definition}

/-! ## What a definition gives -/

/-- What a right-hand side is **read** as: symbols as they are, and a text as the symbols that its
tokens stand for. -/
inductive Reads (d : Definition) : RightSide → Form → Prop
  | symbols (form : Form) : Reads d (.symbols form) form
  | literal {text : String} {tokens : List Token} (scanned : Token.scan text.toList = some tokens) :
      Reads d (.literal text) (tokens.map (Token.resolve (.ofList d.nonterminals)))

/-- A definition **gives** a production when it has a rule that is read as the production. -/
def Gives (d : Definition) (p : Production) : Prop :=
  ∃ given, (p.lhs, given) ∈ d.rules ∧ d.Reads given p.rhs

/-- The symbols that a definition **declares**. -/
def Declares (d : Definition) : Symbol → Prop
  | .terminal c => c ∈ d.terminals
  | .nonterminal n => n ∈ d.nonterminals

/-- A definition is **sound** when it can be read and uses declared symbols only. -/
structure Sound (d : Definition) : Prop where
  /-- All right-hand sides can be read. -/
  reads : ∀ rule ∈ d.rules, ∃ form, d.Reads rule.2 form
  /-- The start is a declared nonterminal. -/
  start_mem : d.start ∈ d.nonterminals
  /-- Rules are given for declared nonterminals. -/
  lhs_mem : ∀ rule ∈ d.rules, rule.1 ∈ d.nonterminals
  /-- Right-hand sides hold declared symbols only. -/
  declares : ∀ p, d.Gives p → ∀ s ∈ p.rhs, d.Declares s

/-- A grammar is **defined** by a definition that makes the same declarations and gives its
alternatives. -/
structure Defines (d : Definition) (g : Grammar) : Prop where
  /-- The start is the same. -/
  start_eq : g.start = d.start
  /-- The same nonterminals are declared. -/
  mem_nonterminals : ∀ name, name ∈ g.nonterminals ↔ name ∈ d.nonterminals
  /-- The same terminals are declared. -/
  mem_terminals : ∀ letter, letter ∈ g.terminals ↔ letter ∈ d.terminals
  /-- The alternatives of a left-hand side are the ones that are given for it. -/
  mem_alternatives : ∀ lhs rhs, rhs ∈ g.alternatives lhs ↔ d.Gives ⟨lhs, rhs⟩

/-- A rule stands for a production when its right-hand side is read. -/
theorem production_eq_ok_iff {rule : String × RightSide} {p : Production} :
    d.production rule = .ok p ↔ rule.1 = p.lhs ∧ d.Reads rule.2 p.rhs := by
  obtain ⟨name, given⟩ := rule
  obtain ⟨lhs, rhs⟩ := p
  cases given with
  | symbols form =>
    rw [production, Except.ok.injEq, Production.mk.injEq]
    refine and_congr_right fun _ => ⟨fun same => same ▸ .symbols form, fun reads => ?_⟩
    cases reads
    rfl
  | literal text =>
    simp only [production, Form.read?]
    cases scanned : Token.scan text.toList with
    | some tokens =>
      simp only [Option.map_some, Except.ok.injEq, Production.mk.injEq]
      refine and_congr_right fun _ => ⟨fun same => same ▸ .literal scanned, fun reads => ?_⟩
      cases reads with
      | literal scanned' => rw [Option.some.inj (scanned.symm.trans scanned')]
    | none =>
      refine iff_of_false nofun fun reads => ?_
      cases reads.2 with
      | literal scanned' => cases scanned.symm.trans scanned'

/-- Only a text with a bracket that is never closed cannot be read. -/
theorem production_eq_error_iff {rule : String × RightSide} {e : Diagnostic Fault} :
    d.production rule = .error e ↔
      ∃ text, rule.2 = .literal text ∧ Token.scan text.toList = none ∧
        e = ⟨.literal rule.1 text, .unclosedBracket⟩ := by
  obtain ⟨name, given⟩ := rule
  cases given with
  | symbols form => exact iff_of_false nofun nofun
  | literal text =>
    simp only [production, Form.read?]
    cases scanned : Token.scan text.toList with
    | some tokens => simp [scanned]
    | none => simp [scanned, eq_comm]

/-- A rule can be read unless it is a text with a bracket that is never closed. -/
theorem exists_reads_iff {rule : String × RightSide} :
    (∃ form, d.Reads rule.2 form) ↔
      ∀ text, rule.2 = .literal text → Token.scan text.toList ≠ none := by
  cases read : d.production rule with
  | ok p =>
    refine iff_of_true ⟨p.rhs, (production_eq_ok_iff.1 read).2⟩ fun text written unread => ?_
    cases read.symm.trans (production_eq_error_iff.2 ⟨text, written, unread, rfl⟩)
  | error e =>
    obtain ⟨text, written, unread, _⟩ := production_eq_error_iff.1 read
    refine iff_of_false ?_ fun closed => closed text written unread
    rintro ⟨form, reads⟩
    have ok : d.production rule = .ok ⟨rule.1, form⟩ := production_eq_ok_iff.2 ⟨rfl, reads⟩
    cases read.symm.trans ok

theorem mem_productions_readable {p : Production} :
    p ∈ d.readable.productions ↔ d.Gives p := by
  rw [readable, SortedSet.mem_ofList, List.mem_filterMap]
  constructor
  · rintro ⟨rule, mem, read⟩
    cases produced : d.production rule with
    | error e => simp [produced, Except.toOption] at read
    | ok q =>
      obtain rfl : q = p := by simpa [produced, Except.toOption] using read
      obtain ⟨same, reads⟩ := production_eq_ok_iff.1 produced
      exact ⟨rule.2, same ▸ mem, reads⟩
  · rintro ⟨given, mem, reads⟩
    refine ⟨_, mem, ?_⟩
    rw [production_eq_ok_iff.2 ⟨rfl, reads⟩]
    rfl

theorem declares_readable {s : Symbol} : d.readable.Declares s ↔ d.Declares s := by
  cases s with
  | terminal c => exact SortedSet.mem_ofList
  | nonterminal n => exact SortedSet.mem_ofList

/-- The grammar of the rules that can be read is defined by them. -/
theorem defines_readable (d : Definition) : d.Defines d.readable where
  start_eq := rfl
  mem_nonterminals _ := SortedSet.mem_ofList
  mem_terminals _ := SortedSet.mem_ofList
  mem_alternatives _ _ := Grammar.mem_alternatives.trans mem_productions_readable

/-- **A definition defines one grammar.** -/
theorem Defines.eq_readable {g : Grammar} (defines : d.Defines g) : g = d.readable := by
  obtain ⟨start, nonterminals, terminals, productions⟩ := g
  obtain ⟨rfl, sameNames, sameLetters, sameAlternatives⟩ := defines
  have names : nonterminals = d.readable.nonterminals := by
    ext name
    rw [sameNames, (defines_readable d).mem_nonterminals]
  have letters : terminals = d.readable.terminals := by
    ext letter
    rw [sameLetters, (defines_readable d).mem_terminals]
  have rules : productions = d.readable.productions := by
    ext p
    exact Grammar.mem_alternatives.symm.trans
      ((sameAlternatives p.lhs p.rhs).trans mem_productions_readable.symm)
  rw [names, letters, rules]
  rfl

/-! ## Faults and where they are -/

/-- A **spot** of a definition where something can be wrong. -/
inductive Spot where
  /-- The text of the rule with this number. -/
  | text (number : Nat)
  /-- The start. -/
  | start
  /-- A left-hand side. -/
  | lhs (name : String)
  /-- A position on the right of a production. -/
  | symbol (p : Production) (position : Nat)

/-- One spot is **before** another in a report: texts come first, in the order given, and then the
start; a left-hand side comes before its productions, and these come in order. -/
def Spot.Before : Spot → Spot → Prop
  | text i, text j => i < j
  | text _, _ => True
  | start, lhs _ => True
  | start, symbol _ _ => True
  | lhs m, lhs n => compare m n = .lt
  | lhs m, symbol q _ => (compare m q.lhs).isLE
  | symbol p _, lhs n => compare p.lhs n = .lt
  | symbol p i, symbol q j => compare p q = .lt ∨ p = q ∧ i < j
  | _, _ => False

/-- No spot is before and after another. -/
theorem Spot.Before.asymm {x y : Spot} (before : x.Before y) : ¬ y.Before x := by
  intro after
  cases x <;> cases y <;> simp only [Before] at before after
  case text.text i j => omega
  case lhs.lhs m n => exact absurd after (Std.OrientedCmp.not_lt_of_lt before)
  case lhs.symbol m q j => exact Std.OrientedCmp.not_lt_of_isLE before after
  case symbol.lhs p i n => exact Std.OrientedCmp.not_lt_of_isLE after before
  case symbol.symbol p i q j =>
    rcases before with before | ⟨rfl, before⟩
    · rcases after with after | ⟨rfl, _⟩
      · exact absurd after (Std.OrientedCmp.not_lt_of_lt before)
      · exact absurd before (by simp)
    · rcases after with after | ⟨_, after⟩
      · exact absurd after (by simp)
      · omega

/-- What is **wrong at a spot** of a definition. -/
inductive FaultAt (d : Definition) : Spot → Diagnostic Fault → Prop
  | text {i : Nat} {lhs text : String} (given : d.rules[i]? = some (lhs, .literal text))
      (unread : Token.scan text.toList = none) :
      FaultAt d (.text i) ⟨.literal lhs text, .unclosedBracket⟩
  | start (undeclared : d.start ∉ d.nonterminals) :
      FaultAt d .start ⟨.definition, .unknownStart d.start⟩
  | lhs {name : String} {rhs : Form} (given : d.Gives ⟨name, rhs⟩)
      (undeclared : name ∉ d.nonterminals) :
      FaultAt d (.lhs name) ⟨.definition, .unknownLhs name⟩
  | symbol {p : Production} {i : Nat} {s : Symbol} (given : d.Gives p)
      (occurs : p.rhs[i]? = some s) (undeclared : ¬ d.Declares s) :
      FaultAt d (.symbol p i) ⟨.production p, Fault.ofUndeclared s⟩

/-- How a report **shows** a spot: a text stands unchanged after the name that it was given for, and
a production is written out; the start and the left-hand sides are matters of the definition. -/
inductive Shows (d : Definition) : Spot → String → Prop
  | text {i : Nat} {lhs text : String} (given : d.rules[i]? = some (lhs, .literal text)) :
      Shows d (.text i) (lhs ++ " -> " ++ text)
  | start : Shows d .start "definition"
  | lhs (name : String) : Shows d (.lhs name) "definition"
  | symbol (p : Production) (i : Nat) :
      Shows d (.symbol p i) ((Symbol.nonterminal p.lhs).text ++ " -> " ++ p.rhs.text)

/-- A spot is shown in one way. -/
theorem Shows.unique {spot : Spot} {text text' : String} (shown : d.Shows spot text)
    (shown' : d.Shows spot text') : text = text' := by
  cases shown with
  | text given =>
    cases shown' with
    | text given' =>
      cases given.symm.trans given'
      rfl
  | start => cases shown'; rfl
  | lhs => cases shown'; rfl
  | symbol => cases shown'; rfl

/-- What is wrong at a spot is placed where the report shows the spot. -/
theorem FaultAt.shows {spot : Spot} {e : Diagnostic Fault} (found : d.FaultAt spot e) :
    d.Shows spot e.place.text := by
  cases found with
  | text given _ => exact .text given
  | start => exact .start
  | lhs => exact .lhs _
  | symbol => exact .symbol _ _

/-- **A definition is sound when nothing is wrong anywhere.** -/
theorem sound_iff : d.Sound ↔ ∀ spot e, ¬ d.FaultAt spot e := by
  constructor
  · rintro sound spot e (⟨given, unread⟩ | undeclared | ⟨given, undeclared⟩ |
      ⟨given, occurs, undeclared⟩)
    · exact exists_reads_iff.1 (sound.reads _ (List.mem_of_getElem? given)) _ rfl unread
    · exact undeclared sound.start_mem
    · obtain ⟨_, mem, _⟩ := given
      exact undeclared (sound.lhs_mem _ mem)
    · exact undeclared (sound.declares _ given _ (List.mem_of_getElem? occurs))
  · intro none
    have reads (rule) (mem : rule ∈ d.rules) : ∃ form, d.Reads rule.2 form := by
      refine exists_reads_iff.2 fun text written unread => ?_
      obtain ⟨i, given⟩ := List.getElem?_of_mem mem
      exact none _ _ (.text (given.trans (congrArg some (Prod.ext rfl written))) unread)
    refine ⟨reads, ?_, fun rule mem => ?_, fun p given s mem => ?_⟩
    · exact Classical.byContradiction fun undeclared => none _ _ (.start undeclared)
    · obtain ⟨form, reads⟩ := reads rule mem
      exact Classical.byContradiction fun undeclared =>
        none _ _ (.lhs ⟨rule.2, mem, reads⟩ undeclared)
    · obtain ⟨i, occurs⟩ := List.getElem?_of_mem mem
      exact Classical.byContradiction fun undeclared => none _ _ (.symbol given occurs undeclared)

/-! ## The report -/

/-- The texts that cannot be read are reported in the order given. -/
theorem lists_unreadable (d : Definition) :
    ListsInOrder Spot.Before (fun spot e => (∃ i, spot = .text i) ∧ d.FaultAt spot e)
      d.unreadable := by
  refine (ListsInOrder.filterMap Spot.text fun i j less => less).congr fun spot e => ?_
  constructor
  · rintro ⟨i, rule, given, found, rfl⟩
    cases produced : d.production rule with
    | ok p => simp [produced] at found
    | error f =>
      obtain rfl : f = e := by simpa [produced] using found
      obtain ⟨text, written, unread, rfl⟩ := production_eq_error_iff.1 produced
      exact ⟨⟨i, rfl⟩, .text (given.trans (congrArg some (Prod.ext rfl written))) unread⟩
  · rintro ⟨⟨i, rfl⟩, found⟩
    cases found with
    | text given unread =>
      refine ⟨i, _, given, ?_, rfl⟩
      rw [production_eq_error_iff.2 ⟨_, rfl, unread, rfl⟩]

/-- The undeclared symbols of a production are reported from left to right. -/
theorem lists_faultsOfProduction {p : Production} (given : d.Gives p) :
    ListsInOrder Spot.Before (fun spot e => (∃ i, spot = .symbol p i) ∧ d.FaultAt spot e)
      (d.readable.faultsOfProduction p) := by
  rw [faultsOfProduction, List.map_filterMap]
  refine (ListsInOrder.filterMap (Spot.symbol p) fun i j less => .inr ⟨rfl, less⟩).congr
    fun spot e => ?_
  simp only [Option.map_eq_some_iff, unknown?_eq_some_iff, declares_readable]
  constructor
  · rintro ⟨i, s, occurs, ⟨_, ⟨undeclared, rfl⟩, rfl⟩, rfl⟩
    exact ⟨⟨i, rfl⟩, .symbol given occurs undeclared⟩
  · rintro ⟨⟨i, rfl⟩, found⟩
    cases found with
    | symbol _ occurs undeclared => exact ⟨i, _, occurs, ⟨_, ⟨undeclared, rfl⟩, rfl⟩, rfl⟩

/-- A spot **belongs to the rule** for a name when it is the left-hand side of the rule or a
position in one of its productions. -/
inductive Spot.OfRule (name : String) : Spot → Prop
  | lhs : OfRule name (.lhs name)
  | symbol (rhs : Form) (i : Nat) : OfRule name (.symbol ⟨name, rhs⟩ i)

/-- Rules are reported in the order of names. -/
theorem Spot.OfRule.before {m n : String} {x y : Spot} (first : x.OfRule m) (second : y.OfRule n)
    (less : compare m n = .lt) : x.Before y := by
  cases first with
  | lhs =>
    cases second with
    | lhs => exact less
    | symbol rhs j => exact Ordering.isLE_of_eq_lt less
  | symbol rhs i =>
    cases second with
    | lhs => exact less
    | symbol rhs' j =>
      refine .inl ?_
      rw [Production.compare_def, less, Ordering.lt_then]

/-- An undeclared left-hand side is reported before the productions of its rule. -/
theorem lists_faultsOfRule {name : String} (mem : name ∈ d.readable.leftSides) :
    ListsInOrder Spot.Before (fun spot e => spot.OfRule name ∧ d.FaultAt spot e)
      (d.readable.faultsOfRule (name, d.readable.alternatives name)) := by
  have gives (rhs : Form) : rhs ∈ d.readable.alternatives name ↔ d.Gives ⟨name, rhs⟩ :=
    (defines_readable d).mem_alternatives name rhs
  have declared := (defines_readable d).mem_nonterminals name
  have symbols : ListsInOrder Spot.Before
      (fun spot e => ∃ rhs ∈ (d.readable.alternatives name).toList,
        (∃ i, spot = .symbol ⟨name, rhs⟩ i) ∧ d.FaultAt spot e)
      ((d.readable.alternatives name).toList.flatMap fun rhs =>
        d.readable.faultsOfProduction ⟨name, rhs⟩) := by
    refine .flatMap (d.readable.alternatives name).ascending
      (fun rhs given => lists_faultsOfProduction ((gives rhs).1 given)) ?_
    rintro rhs rhs' less _ _ _ _ ⟨⟨i, rfl⟩, _⟩ ⟨⟨j, rfl⟩, _⟩
    refine .inl ?_
    rw [Production.compare_def, Std.ReflOrd.compare_self, less, Ordering.eq_then]
  refine ((ListsInOrder.ite (.lhs name) _).append symbols ?_).congr fun spot e => ?_
  · rintro _ _ _ _ ⟨_, rfl, _⟩ ⟨rhs, _, ⟨i, rfl⟩, _⟩
    exact Ordering.isLE_of_eq_eq Std.ReflOrd.compare_self
  · constructor
    · rintro (⟨undeclared, rfl, rfl⟩ | ⟨rhs, _, ⟨i, rfl⟩, found⟩)
      · obtain ⟨rhs, given⟩ := Grammar.mem_leftSides.1 mem
        exact ⟨.lhs, .lhs (mem_productions_readable.1 given) (mt declared.2 undeclared)⟩
      · exact ⟨.symbol rhs i, found⟩
    · rintro ⟨_ | ⟨rhs, i⟩, found⟩
      · cases found with
        | lhs _ undeclared => exact .inl ⟨mt declared.1 undeclared, rfl, rfl⟩
      · have given : d.Gives ⟨name, rhs⟩ := by
          cases found with
          | symbol given _ _ => exact given
        exact .inr ⟨rhs, (gives rhs).2 given, ⟨i, rfl⟩, found⟩

/-- After the texts come the start and then the rules in the order of names. -/
theorem lists_faults (d : Definition) :
    ListsInOrder Spot.Before (fun spot e => (¬ ∃ i, spot = .text i) ∧ d.FaultAt spot e)
      d.readable.faults := by
  have declared := (defines_readable d).mem_nonterminals d.start
  have rules : ListsInOrder Spot.Before
      (fun spot e => ∃ name ∈ d.readable.leftSides.toList, spot.OfRule name ∧ d.FaultAt spot e)
      (d.readable.leftSides.toList.flatMap fun name =>
        d.readable.faultsOfRule (name, d.readable.alternatives name)) :=
    .flatMap d.readable.leftSides.ascending (fun name mem => lists_faultsOfRule mem)
      fun m n less _ _ _ _ first second => first.1.before second.1 less
  rw [faults, Grammar.rules, List.flatMap_map]
  refine ((ListsInOrder.ite .start _).append rules ?_).congr fun spot e => ?_
  · rintro _ _ _ _ ⟨_, rfl, _⟩ ⟨name, _, _ | _, _⟩
    · trivial
    · trivial
  · have mem {name : String} {rhs : Form} (given : d.Gives ⟨name, rhs⟩) :
        name ∈ d.readable.leftSides :=
      Grammar.mem_leftSides.2 ⟨rhs, mem_productions_readable.2 given⟩
    constructor
    · rintro (⟨undeclared, rfl, rfl⟩ | ⟨name, _, own, found⟩)
      · refine ⟨?_, .start (mt declared.2 undeclared)⟩
        rintro ⟨i, same⟩
        cases same
      · refine ⟨?_, found⟩
        rintro ⟨i, rfl⟩
        cases own
    · rintro ⟨other, found⟩
      cases found with
      | text => exact absurd ⟨_, rfl⟩ other
      | start undeclared => exact .inl ⟨mt declared.1 undeclared, rfl, rfl⟩
      | lhs given undeclared => exact .inr ⟨_, mem given, .lhs, .lhs given undeclared⟩
      | symbol given occurs undeclared =>
        exact .inr ⟨_, mem given, .symbol _ _, .symbol given occurs undeclared⟩

/-- **The report** lists everything that is wrong with a definition, in order. -/
theorem lists_unreadable_append_faults (d : Definition) :
    ListsInOrder Spot.Before d.FaultAt (d.unreadable ++ d.readable.faults) := by
  refine ((lists_unreadable d).append (lists_faults d) ?_).congr fun spot e => ?_
  · rintro _ _ spot _ ⟨⟨i, rfl⟩, _⟩ ⟨other, _⟩
    cases spot with
    | text j => exact absurd ⟨j, rfl⟩ other
    | start => trivial
    | lhs name => trivial
    | symbol p j => trivial
  · rw [← or_and_right, and_iff_right (Classical.em _)]

/-- **Building accepts what is sound and reports everything else**: a definition is built just when
it is sound, its grammar is then the one that it defines, and otherwise the errors are what is wrong
at its spots, each once and in order, with the rule in question written out. -/
theorem build_exact (d : Definition) :
    ((∃ g, d.build = .ok g) ↔ d.Sound) ∧
      (∀ g, d.build = .ok g ↔ d.Sound ∧ d.Defines g) ∧
      (∀ errors, d.build = .error errors ↔
        ¬ d.Sound ∧ ListsInOrder Spot.Before d.FaultAt errors) ∧
      ∀ errors, d.build = .error errors →
        ListsInOrder Spot.Before (fun spot text => (∃ e, d.FaultAt spot e) ∧ d.Shows spot text)
          (errors.map (·.place.text)) := by
  have lists := lists_unreadable_append_faults d
  have sound : d.Sound ↔ d.unreadable ++ d.readable.faults = [] :=
    sound_iff.trans lists.eq_nil_iff.symm
  have built (g) : d.build = .ok g ↔ d.Sound ∧ d.readable = g := by
    rw [build_eq_ok_iff, sound, List.append_eq_nil_iff, faults_eq_nil_iff, and_assoc]
  have reported (errors) : d.build = .error errors ↔
      ¬ d.Sound ∧ ListsInOrder Spot.Before d.FaultAt errors := by
    rw [build_eq_error_iff, sound, lists.eq_iff fun _ _ => Spot.Before.asymm]
  refine ⟨?_, fun g => ?_, reported, fun errors failed => ?_⟩
  · simp only [built, exists_and_left, exists_eq', and_true]
  · rw [built]
    exact and_congr_right fun _ =>
      ⟨fun same => same ▸ defines_readable d, fun defines => defines.eq_readable.symm⟩
  · obtain ⟨_, listed⟩ := (reported errors).1 failed
    exact listed.map_shown (fun _ _ => FaultAt.shows) fun _ _ _ => Shows.unique

/-- A definition with an undeclared start, undeclared symbols, and an undeclared name of two
characters one of whose texts cannot be read. -/
def jumbled : Definition where
  start := "S"
  nonterminals := ["A"]
  terminals := ['a']
  rules := [("Qs", .literal "a<Bs>"), ("A", .symbols [.terminal 'z', .nonterminal "B"]),
    ("Qs", .literal "a<B")]

/-- The report on the jumbled definition: the text comes before everything else and is shown as it
was given, and the rules follow the start in the order of names. -/
theorem build_exact_jumbled :
    ¬ jumbled.Sound ∧ ∃ errors, jumbled.build = .error errors ∧
      ListsInOrder Spot.Before
        (fun spot text => (∃ e, jumbled.FaultAt spot e) ∧ jumbled.Shows spot text)
        (errors.map (·.place.text)) ∧
      errors.map (fun e => (e.place.text, e.fault)) =
        [("Qs -> a<B", .unclosedBracket), ("definition", .unknownStart "S"),
          ("A -> zB", .unknownTerminal 'z'), ("A -> zB", .unknownNonterminal "B"),
          ("definition", .unknownLhs "Qs"), ("<Qs> -> a<Bs>", .unknownNonterminal "Bs")] := by
  have failed : jumbled.build = .error [⟨.literal "Qs" "a<B", .unclosedBracket⟩,
      ⟨.definition, .unknownStart "S"⟩,
      ⟨.production ⟨"A", [.terminal 'z', .nonterminal "B"]⟩, .unknownTerminal 'z'⟩,
      ⟨.production ⟨"A", [.terminal 'z', .nonterminal "B"]⟩, .unknownNonterminal "B"⟩,
      ⟨.definition, .unknownLhs "Qs"⟩,
      ⟨.production ⟨"Qs", [.terminal 'a', .nonterminal "Bs"]⟩, .unknownNonterminal "Bs"⟩] := by
    rfl
  obtain ⟨_, _, reported, shown⟩ := build_exact jumbled
  obtain ⟨unsound, _⟩ := (reported _).1 failed
  exact ⟨unsound, _, failed, shown _ failed, rfl⟩

/-! ## Rules for undeclared names -/

/-- Something is wrong with each rule for an undeclared name: its text cannot be read, or it makes
the name a left-hand side. -/
theorem exists_faultAt_of_rule {name : String} {given : RightSide}
    (mem : (name, given) ∈ d.rules) (undeclared : name ∉ d.nonterminals) :
    ∃ spot e, d.FaultAt spot e := by
  cases read : d.production (name, given) with
  | ok p =>
    obtain ⟨rfl, reads⟩ := production_eq_ok_iff.1 read
    exact ⟨_, _, .lhs ⟨given, mem, reads⟩ undeclared⟩
  | error e =>
    obtain ⟨text, rfl, unread, _⟩ := production_eq_error_iff.1 read
    obtain ⟨i, there⟩ := List.getElem?_of_mem mem
    exact ⟨_, _, .text there unread⟩

/-- A definition with which something is wrong is not built, and what is reported is everything that
is wrong somewhere. -/
theorem FaultAt.exists_report {spot : Spot} {e : Diagnostic Fault} (found : d.FaultAt spot e) :
    ∃ errors, d.build = .error errors ∧ ∀ e, e ∈ errors ↔ ∃ spot, d.FaultAt spot e := by
  have lists := lists_unreadable_append_faults d
  refine ⟨_, build_eq_error_iff.2 ⟨fun none => ?_, rfl⟩, fun e => lists.mem_iff⟩
  exact lists.eq_nil_iff.1 none spot e found

/-- **An undeclared name with rules is reported when one of its rules can be read**, whatever else
is wrong with the definition. A rule that cannot be read is reported by its text and adds nothing
else, so a name all of whose rules are such is not reported as undeclared. -/
theorem unknownLhs_reported_iff (d : Definition) {name : String} {given : RightSide}
    (mem : (name, given) ∈ d.rules) (undeclared : name ∉ d.nonterminals) :
    ∃ errors, d.build = .error errors ∧
      (⟨.definition, .unknownLhs name⟩ ∈ errors ↔ ∃ rhs, d.Gives ⟨name, rhs⟩) ∧
      ∀ text, (name, .literal text) ∈ d.rules → Token.scan text.toList = none →
        ⟨.literal name text, .unclosedBracket⟩ ∈ errors := by
  obtain ⟨_, _, found⟩ := exists_faultAt_of_rule mem undeclared
  obtain ⟨errors, failed, report⟩ := found.exists_report
  refine ⟨errors, failed, ?_, fun text listed unread => ?_⟩
  · rw [report]
    constructor
    · rintro ⟨spot, found⟩
      cases found with
      | lhs given _ => exact ⟨_, given⟩
    · rintro ⟨rhs, given⟩
      exact ⟨_, .lhs given undeclared⟩
  · obtain ⟨i, there⟩ := List.getElem?_of_mem listed
    exact (report _).2 ⟨_, .text there unread⟩

/-- A definition with rules for two undeclared names: the only rule of one cannot be read, and
neither can the first rule of the other. -/
def garbled : Definition where
  start := "S"
  nonterminals := ["S"]
  terminals := ['a']
  rules := [("Q", .literal "<B"), ("R", .literal "<C"), ("R", .literal "a")]

/-- Of the undeclared names of the garbled definition only the one with a rule that can be read is
reported, besides both texts. -/
theorem unknownLhs_reported_iff_garbled :
    ("R", .literal "a") ∈ garbled.rules ∧ "R" ∉ garbled.nonterminals ∧
      ("Q", .literal "<B") ∈ garbled.rules ∧ "Q" ∉ garbled.nonterminals ∧
      ∃ errors, garbled.build = .error errors ∧ ⟨.definition, .unknownLhs "R"⟩ ∈ errors ∧
        ⟨.literal "R" "<C", .unclosedBracket⟩ ∈ errors ∧
        ⟨.definition, .unknownLhs "Q"⟩ ∉ errors ∧
        ⟨.literal "Q" "<B", .unclosedBracket⟩ ∈ errors := by
  have mem : ("R", .literal "a") ∈ garbled.rules := .tail _ (.tail _ (.head _))
  have mem' : ("Q", .literal "<B") ∈ garbled.rules := .head _
  have undeclared : "R" ∉ garbled.nonterminals := by decide
  have undeclared' : "Q" ∉ garbled.nonterminals := by decide
  have scanned : Token.scan "a".toList = some [.single 'a'] := rfl
  have given : ∃ rhs, garbled.Gives ⟨"R", rhs⟩ := ⟨_, _, mem, .literal scanned⟩
  have ungiven : ¬ ∃ rhs, garbled.Gives ⟨"Q", rhs⟩ := by
    rintro ⟨rhs, given, listed, reads⟩
    obtain rfl : given = .literal "<B" := by simpa [garbled] using listed
    cases reads with
    | literal scanned => cases scanned
  obtain ⟨errors, failed, reported, texts⟩ := unknownLhs_reported_iff garbled mem undeclared
  obtain ⟨errors', failed', reported', texts'⟩ := unknownLhs_reported_iff garbled mem' undeclared'
  obtain rfl : errors = errors' := Except.error.inj (failed.symm.trans failed')
  exact ⟨mem, undeclared, mem', undeclared', errors, failed, reported.2 given,
    texts "<C" (.tail _ (.head _)) rfl, mt reported'.1 ungiven, texts' "<B" mem' rfl⟩

/-- **Not every undeclared name with rules is reported**: the first name of the garbled definition
is not. -/
theorem not_unknownLhs_reported_garbled :
    ¬ ∀ (d : Definition) (name : String) (given : RightSide), (name, given) ∈ d.rules →
      name ∉ d.nonterminals →
      ∃ errors, d.build = .error errors ∧ ⟨.definition, .unknownLhs name⟩ ∈ errors := by
  intro always
  obtain ⟨errors, failed, reported⟩ :=
    always garbled "Q" (.literal "<B") (.head _) (by decide)
  have report : garbled.build = .error [⟨.literal "Q" "<B", .unclosedBracket⟩,
      ⟨.literal "R" "<C", .unclosedBracket⟩, ⟨.definition, .unknownLhs "R"⟩] := by
    rfl
  obtain rfl := Except.error.inj (report.symm.trans failed)
  simp at reported

end Definition

end FormalLanguages.Grammar
