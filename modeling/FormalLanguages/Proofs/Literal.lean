import FormalLanguages.Proofs.Grammar.Definition

/-! # Written forms are read back

Texts can be read piece by piece: what a text is read as does not depend on the text that follows it
(`Form.read?_append`), and only texts that leave a bracket open cannot be read
(`Token.scan_piecewise_unless_open`). So all forms over some names and letters are read back when
their symbols are, one by one, and this is so for exactly the `Expressible` ones
(`Grammar.readsBack_iff_expressible`). A grammar over expressible symbols can be defined by its
written forms. -/

namespace FormalLanguages

/-! ## Reading piece by piece -/

namespace Token

variable {text rest : List Char} {tokens : List Token}

/-- What is cut into tokens goes on with the tokens of what follows, inside a bracket and outside. -/
theorem scan_append_and_scanName_append (text rest : List Char) :
    (∀ tokens, scan text = some tokens →
      scan (text ++ rest) = (scan rest).map (tokens ++ ·)) ∧
    ∀ name tokens, scanName name text = some tokens →
      scanName name (text ++ rest) = (scan rest).map (tokens ++ ·) := by
  induction text with
  | nil =>
    refine ⟨fun tokens scanned => ?_, fun name tokens scanned => ?_⟩
    · cases scanned
      simp
    · cases scanned
  | cons c text ih =>
    obtain ⟨outside, inside⟩ := ih
    rw [List.cons_append]
    refine ⟨fun tokens scanned => ?_, fun name tokens scanned => ?_⟩
    · by_cases opens : c = '<'
      · subst opens
        exact inside [] tokens scanned
      by_cases skipped : isSkipped c = true
      · rw [scan_skipped opens skipped] at scanned ⊢
        exact outside tokens scanned
      · rw [scan_single opens skipped] at scanned ⊢
        obtain ⟨others, found, rfl⟩ := Option.map_eq_some_iff.1 scanned
        rw [outside others found, Option.map_map]
        rfl
    · by_cases closes : c = '>'
      · subst closes
        rw [scanName_close] at scanned ⊢
        obtain ⟨others, found, rfl⟩ := Option.map_eq_some_iff.1 scanned
        rw [outside others found, Option.map_map]
        rfl
      · rw [scanName_other name closes] at scanned ⊢
        exact inside _ tokens scanned

/-- **Tokens do not depend on what follows them.** -/
theorem scan_append (scanned : scan text = some tokens) :
    scan (text ++ rest) = (scan rest).map (tokens ++ ·) :=
  (scan_append_and_scanName_append text rest).1 tokens scanned

/-- A bracket is closed by the first `>` in it. -/
theorem scanName_append (name : List Char) {inner : List Char} (none : '>' ∉ inner)
    (rest : List Char) :
    scanName name (inner ++ '>' :: rest) =
      (scan rest).map (bracketed (String.ofList (name.reverse ++ inner)) :: ·) := by
  induction inner generalizing name with
  | nil => rw [List.nil_append, scanName_close, List.append_nil]
  | cons c inner ih =>
    obtain ⟨other, none⟩ := List.ne_and_not_mem_of_not_mem_cons none
    rw [List.cons_append, scanName_other name (Ne.symm other), ih _ none, List.reverse_cons,
      List.append_assoc, List.singleton_append]

/-- Characters that carry no symbol change nothing in front of a text. -/
theorem scan_append_of_isSkipped {gap : List Char} (skipped : ∀ c ∈ gap, isSkipped c = true) :
    scan (gap ++ rest) = scan rest := by
  induction gap with
  | nil => rfl
  | cons c gap ih =>
    obtain ⟨first, others⟩ := List.forall_mem_cons.1 skipped
    have other : c ≠ '<' := by
      rintro rfl
      exact absurd first (by decide)
    rw [List.cons_append, scan_skipped other first, ih others]

/-! ## Texts that cannot be read -/

/-- A text **leaves a bracket open** when it opens one and closes none after it. -/
def LeavesOpen (text : List Char) : Prop :=
  ∃ before after, text = before ++ '<' :: after ∧ '>' ∉ after

/-- The empty text leaves no bracket open. -/
@[simp] theorem not_leavesOpen_nil : ¬ LeavesOpen [] := by
  rintro ⟨before, after, same, _⟩
  simp at same

/-- A text leaves a bracket open when its first character is one that is never closed, or the text
behind it leaves one open. -/
theorem leavesOpen_cons_iff {c : Char} :
    LeavesOpen (c :: text) ↔ c = '<' ∧ '>' ∉ text ∨ LeavesOpen text := by
  constructor
  · rintro ⟨_ | ⟨_, before⟩, after, same, none⟩
    · cases same
      exact .inl ⟨rfl, none⟩
    · cases same
      exact .inr ⟨before, after, rfl, none⟩
  · rintro (⟨rfl, none⟩ | ⟨before, after, rfl, none⟩)
    · exact ⟨[], text, rfl, none⟩
    · exact ⟨c :: before, after, rfl, none⟩

/-- Cutting a text into tokens fails where a bracket is left open. Inside a bracket it also fails
when this bracket is not closed, and brackets that are opened there count for nothing once it is. -/
theorem scan_eq_none_iff_and_scanName_eq_none_iff (text : List Char) :
    (scan text = none ↔ LeavesOpen text) ∧
      ∀ name, scanName name text = none ↔ '>' ∉ text ∨ LeavesOpen text := by
  induction text with
  | nil => simp
  | cons c text ih =>
    obtain ⟨outside, inside⟩ := ih
    rw [leavesOpen_cons_iff]
    refine ⟨?_, fun name => ?_⟩
    · by_cases opens : c = '<'
      · subst opens
        rw [scan_open, inside, and_iff_right rfl]
      rw [← outside]
      by_cases skipped : isSkipped c = true
      · rw [scan_skipped opens skipped]
        simp [opens]
      · rw [scan_single opens skipped]
        simp [opens]
    · by_cases closes : c = '>'
      · subst closes
        rw [scanName_close, Option.map_eq_none_iff, outside]
        simp
      · rw [scanName_other name closes, inside]
        -- a bracket that opens here is closed by whatever closes the outer one
        simp only [List.mem_cons, Ne.symm closes, false_or]
        constructor
        · rintro (none | left)
          · exact .inl none
          · exact .inr (.inr left)
        · rintro (none | ⟨_, none⟩ | left)
          · exact .inl none
          · exact .inl none
          · exact .inr left

/-- **A text cannot be read when it leaves a bracket open**, and only then. -/
theorem scan_eq_none_iff : scan text = none ↔ LeavesOpen text :=
  (scan_eq_none_iff_and_scanName_eq_none_iff text).1

/-- **Just the texts that leave no bracket open are read, and they are read piece by piece.** An
open bracket is the one fault of a text. What is read goes on with whatever follows it: with its
tokens, with its open bracket, and with no trace of `ε` and blanks in between. -/
theorem scan_piecewise_unless_open :
    (∀ text, scan text = none ↔ LeavesOpen text) ∧
      (∀ (d : Grammar.Definition) lhs text e, d.production (lhs, .literal text) = .error e ↔
        LeavesOpen text.toList ∧ e = ⟨.literal lhs text, .unclosedBracket⟩) ∧
      ∀ text tokens, scan text = some tokens → ∀ more,
        (∀ others, scan more = some others → scan (text ++ more) = some (tokens ++ others)) ∧
          (scan more = none → scan (text ++ more) = none) ∧
          ∀ gap, (∀ c ∈ gap, c = 'ε' ∨ Text.isBlank c = true) →
            scan (text ++ gap ++ more) = scan (text ++ more) := by
  refine ⟨fun text => scan_eq_none_iff, fun d lhs text e => ?_, fun text tokens scanned more => ?_⟩
  · rw [← scan_eq_none_iff, Grammar.Definition.production_eq_error_iff]
    constructor
    · rintro ⟨_, same, unread, rfl⟩
      cases same
      exact ⟨unread, rfl⟩
    · rintro ⟨unread, rfl⟩
      exact ⟨text, rfl, unread, rfl⟩
  · refine ⟨fun others found => ?_, fun unread => ?_, fun gap empty => ?_⟩
    · rw [scan_append scanned, found, Option.map_some]
    · rw [scan_append scanned, unread, Option.map_none]
    · have skipped : ∀ c ∈ gap, isSkipped c = true := fun c mem => by
        simpa [isSkipped] using empty c mem
      rw [List.append_assoc, scan_append scanned, scan_append_of_isSkipped skipped,
        scan_append scanned]

/-- A bracket holds an opening bracket and a blank, and a closing bracket alone is a token. A text
that leaves a bracket open after them cannot be read, also behind one that can. -/
theorem scan_piecewise_unless_open_nested :
    LeavesOpen "> <c".toList ∧ ¬ LeavesOpen "<a<b >".toList ∧
      scan "<a<b >".toList = some [.bracketed "a<b "] ∧
      scan ("<a<b >".toList ++ "> d".toList) =
        some ([.bracketed "a<b "] ++ [.single '>', .single 'd']) ∧
      scan ("<a<b >".toList ++ "> <c".toList) = none ∧
      (∀ c ∈ " ε\t".toList, c = 'ε' ∨ Text.isBlank c = true) ∧
      scan ("<a<b >".toList ++ " ε\t".toList ++ "> d".toList) =
        scan ("<a<b >".toList ++ "> d".toList) := by
  obtain ⟨unread, _, piecewise⟩ := scan_piecewise_unless_open
  have scanned : scan "<a<b >".toList = some [.bracketed "a<b "] := by decide +kernel
  have others : scan "> d".toList = some [.single '>', .single 'd'] := by decide +kernel
  have left : scan "> <c".toList = none := by decide +kernel
  have blanks : " ε\t".toList.all (fun c => c == 'ε' || Text.isBlank c) = true := by decide +kernel
  have empty : ∀ c ∈ " ε\t".toList, c = 'ε' ∨ Text.isBlank c = true := fun c mem => by
    simpa using List.all_eq_true.1 blanks c mem
  obtain ⟨goesOn, _, skips⟩ := piecewise _ _ scanned "> d".toList
  refine ⟨(unread _).1 left, fun leaves => ?_, scanned, goesOn _ others,
    (piecewise _ _ scanned _).2.1 left, empty, skips _ empty⟩
  cases scanned.symm.trans ((unread _).2 leaves)

end Token

namespace Form

variable {names : SortedSet String} {letters : SortedSet Char}

/-- **Reading is piece by piece**: what a text is read as does not depend on what follows it. -/
theorem read?_append {text rest : String} {form : Form} (h : read? names text = some form) :
    read? names (text ++ rest) = (read? names rest).map (form ++ ·) := by
  obtain ⟨tokens, scanned, rfl⟩ := Option.map_eq_some_iff.1 h
  rw [read?, read?, String.toList_append, Token.scan_append scanned, Option.map_map, Option.map_map]
  congr 1
  funext others
  simp

/-- Symbols that are read back are read back in a row. -/
theorem read?_join {form : Form} (back : ∀ s ∈ form, read? names s.text = some [s]) :
    read? names (String.join (form.map Symbol.text)) = some form := by
  induction form with
  | nil => rfl
  | cons s rest ih =>
    obtain ⟨first, others⟩ := List.forall_mem_cons.1 back
    rw [List.map_cons, String.join_cons, read?_append first, ih others]
    rfl

/-! ## Single symbols -/

/-- A character is **plain** when it stands for a symbol outside brackets: it opens no bracket and is
neither `ε` nor blank. -/
def PlainCharacter (c : Char) : Prop := c ≠ '<' ∧ c ≠ 'ε' ∧ Text.isBlank c = false

instance (c : Char) : Decidable (PlainCharacter c) :=
  inferInstanceAs (Decidable (c ≠ '<' ∧ c ≠ 'ε' ∧ Text.isBlank c = false))

/-- The characters that are passed over are `ε` and blanks. -/
theorem plainCharacter_iff {c : Char} :
    PlainCharacter c ↔ c ≠ '<' ∧ ¬ Token.isSkipped c = true := by
  simp [PlainCharacter, Token.isSkipped]

/-- A single character is read as the symbol that it stands for when it is plain, and as no symbol
otherwise. -/
theorem read?_singleton_iff {c : Char} {s : Symbol} :
    read? names (String.singleton c) = some [s] ↔
      PlainCharacter c ∧ (Token.single c).resolve names = s := by
  rw [plainCharacter_iff, read?, String.toList_singleton]
  by_cases opens : c = '<'
  · subst opens
    simp
  by_cases skipped : Token.isSkipped c = true
  · rw [Token.scan_skipped opens skipped]
    simp [skipped]
  · rw [Token.scan_single opens skipped]
    simp [opens, skipped]

/-- A letter is read back when it is plain and no declared name. -/
theorem read?_terminal_iff {c : Char} :
    read? names (Symbol.terminal c).text = some [.terminal c] ↔
      PlainCharacter c ∧ String.singleton c ∉ names := by
  rw [Symbol.text, Char.toString, read?_singleton_iff, Token.resolve, Char.toString]
  refine and_congr_right fun _ => ?_
  split
  · rename_i declared
    exact iff_of_false nofun fun undeclared => undeclared declared
  · rename_i undeclared
    exact iff_of_true rfl undeclared

/-- A declared name of one character is read back when the character is plain. -/
theorem read?_singleton_name_iff {c : Char} (declared : String.singleton c ∈ names) :
    read? names (Symbol.nonterminal (String.singleton c)).text =
        some [.nonterminal (String.singleton c)] ↔ PlainCharacter c := by
  rw [Symbol.text, if_pos (String.length_singleton), read?_singleton_iff, Token.resolve,
    Char.toString, if_pos declared]
  exact and_iff_left rfl

/-- Any other name is read back when it does not close its bracket. -/
theorem read?_bracketed_iff {n : String} (long : n.length ≠ 1) :
    read? names (Symbol.nonterminal n).text = some [.nonterminal n] ↔ '>' ∉ n.toList := by
  have written : (Symbol.nonterminal n).text.toList = '<' :: (n.toList ++ ['>']) := by
    rw [Symbol.text, if_neg long]
    simp
  rw [read?, written, Token.scan_open]
  constructor
  · intro back closes
    obtain ⟨inner, more, split, none⟩ := List.eq_append_cons_of_mem closes
    rw [split, List.append_assoc, List.cons_append, Token.scanName_append [] none] at back
    obtain ⟨tokens, scanned, resolved⟩ := Option.map_eq_some_iff.1 back
    obtain ⟨others, _, rfl⟩ := Option.map_eq_some_iff.1 scanned
    -- the name that was read ends before the first bracket
    have cut : String.ofList inner = n := Symbol.nonterminal.inj (List.cons.inj resolved).1
    rw [← cut, String.toList_ofList] at closes
    exact none closes
  · intro none
    rw [Token.scanName_append [] none]
    simp [Token.resolve]

/-! ## Expressible symbols -/

/-- A form is **over** some names and letters when it holds no other symbols. -/
structure Over (names : SortedSet String) (letters : SortedSet Char) (form : Form) : Prop where
  /-- The nonterminals are among the names. -/
  name_mem : ∀ n, .nonterminal n ∈ form → n ∈ names
  /-- The terminals are among the letters. -/
  letter_mem : ∀ c, .terminal c ∈ form → c ∈ letters

/-- A nonterminal alone is over the names. -/
theorem over_nonterminal_iff {n : String} : Over names letters [.nonterminal n] ↔ n ∈ names := by
  constructor
  · intro within
    exact within.name_mem n (List.mem_singleton_self _)
  · intro mem
    refine ⟨fun m same => ?_, fun c same => ?_⟩
    · cases List.mem_singleton.1 same
      exact mem
    · cases List.mem_singleton.1 same

/-- A terminal alone is over the letters. -/
theorem over_terminal_iff {c : Char} : Over names letters [.terminal c] ↔ c ∈ letters := by
  constructor
  · intro within
    exact within.letter_mem c (List.mem_singleton_self _)
  · intro mem
    refine ⟨fun n same => ?_, fun d same => ?_⟩
    · cases List.mem_singleton.1 same
    · cases List.mem_singleton.1 same
      exact mem

/-- Names and letters are **expressible** when their written forms cannot be mistaken: a name between
brackets does not close them, and letters and names of one character are plain and differ. -/
structure Expressible (names : SortedSet String) (letters : SortedSet Char) : Prop where
  /-- Names that are written between brackets do not close them. -/
  bracketed : ∀ n, n ∈ names → n.length ≠ 1 → '>' ∉ n.toList
  /-- Names of one character are plain. -/
  single : ∀ c, String.singleton c ∈ names → PlainCharacter c
  /-- Letters are plain and no names. -/
  letter : ∀ c, c ∈ letters → PlainCharacter c ∧ String.singleton c ∉ names

/-- A name of one character is that character. -/
theorem exists_eq_singleton {n : String} (one : n.length = 1) : ∃ c, n = String.singleton c := by
  rw [← String.length_toList] at one
  obtain ⟨c, same⟩ := List.length_eq_one_iff.1 one
  exact ⟨c, String.toList_inj.1 (by rw [same, String.toList_singleton])⟩

/-- Whether names and letters are expressible is found out by looking at each of them. -/
theorem expressible_iff_all :
    Expressible names letters ↔
      (∀ n, n ∈ names → n.length ≠ 1 → '>' ∉ n.toList) ∧
        (∀ n, n ∈ names → n.length = 1 → n.toList.all (PlainCharacter ·) = true) ∧
          letters.toList.all (fun c => PlainCharacter c ∧ String.singleton c ∉ names) = true := by
  simp only [List.all_eq_true, decide_eq_true_iff, SortedSet.mem_toList]
  constructor
  · intro expressible
    refine ⟨expressible.bracketed, fun n mem one c occurs => ?_, expressible.letter⟩
    obtain ⟨d, rfl⟩ := exists_eq_singleton one
    rw [String.toList_singleton, List.mem_singleton] at occurs
    exact occurs ▸ expressible.single d mem
  · rintro ⟨bracketed, single, letter⟩
    refine ⟨bracketed, fun c mem => ?_, letter⟩
    exact single _ mem (String.length_singleton) c (by rw [String.toList_singleton]; exact .head _)

instance : Decidable (Expressible names letters) := decidable_of_iff _ expressible_iff_all.symm

/-- Fewer names and letters stay expressible. -/
theorem Expressible.mono (expressible : Expressible names letters) {names' : SortedSet String}
    {letters' : SortedSet Char} (fewerNames : names' ⊆ names) (fewerLetters : letters' ⊆ letters) :
    Expressible names' letters' where
  bracketed n mem := expressible.bracketed n (fewerNames n mem)
  single c mem := expressible.single c (fewerNames _ mem)
  letter c mem := by
    obtain ⟨plain, none⟩ := expressible.letter c (fewerLetters c mem)
    exact ⟨plain, mt (fewerNames _) none⟩

/-- A form of one symbol is written as the symbol. -/
theorem text_singleton (s : Symbol) : text [s] = s.text := by
  rw [text, if_neg (by simp), List.map_singleton]
  simp

/-- **All symbols are read back** when names and letters are expressible, and only then. -/
theorem forall_read?_symbol_iff :
    (∀ s, Over names letters [s] → read? names s.text = some [s]) ↔
      Expressible names letters := by
  constructor
  · intro back
    refine ⟨fun n mem long => ?_, fun c mem => ?_, fun c mem => ?_⟩
    · exact (read?_bracketed_iff long).1 (back _ (over_nonterminal_iff.2 mem))
    · exact (read?_singleton_name_iff mem).1 (back _ (over_nonterminal_iff.2 mem))
    · exact read?_terminal_iff.1 (back _ (over_terminal_iff.2 mem))
  · intro expressible s within
    cases s with
    | terminal c => exact read?_terminal_iff.2 (expressible.letter c (over_terminal_iff.1 within))
    | nonterminal n =>
      have mem := over_nonterminal_iff.1 within
      by_cases one : n.length = 1
      · obtain ⟨c, rfl⟩ := exists_eq_singleton one
        exact (read?_singleton_name_iff mem).2 (expressible.single c mem)
      · exact (read?_bracketed_iff one).2 (expressible.bracketed n mem one)

/-- **All forms are read back** when all symbols are. -/
theorem forall_read?_text_iff :
    (∀ form, Over names letters form → read? names form.text = some form) ↔
      ∀ s, Over names letters [s] → read? names s.text = some [s] := by
  constructor
  · intro back s within
    have single := back [s] within
    rwa [text_singleton] at single
  · intro back form within
    by_cases empty : form.isEmpty = true
    · rw [text, if_pos empty, List.isEmpty_iff.1 empty]
      rfl
    · rw [text, if_neg empty]
      refine read?_join fun s mem => back s ⟨fun n same => ?_, fun c same => ?_⟩
      · rw [List.mem_singleton] at same
        exact within.name_mem n (same ▸ mem)
      · rw [List.mem_singleton] at same
        exact within.letter_mem c (same ▸ mem)

end Form

namespace Grammar

/-! ## Grammars defined by their written forms -/

/-- A definition **writes out** a grammar when it makes the same declarations and gives the written
forms of its productions, in any order and any number of times. -/
structure Definition.WritesOut (d : Definition) (g : Grammar) : Prop where
  /-- The start is the same. -/
  start_eq : d.start = g.start
  /-- The same nonterminals are declared. -/
  mem_nonterminals : ∀ n, n ∈ d.nonterminals ↔ n ∈ g.nonterminals
  /-- The same terminals are declared. -/
  mem_terminals : ∀ c, c ∈ d.terminals ↔ c ∈ g.terminals
  /-- The rules are the productions with their right-hand sides written out. -/
  mem_rules : ∀ rule, rule ∈ d.rules ↔
    ∃ p, p ∈ g.productions ∧ (p.lhs, .literal p.rhs.text) = rule

variable {g : Grammar} {d : Definition}

/-- A definition that writes out a grammar declares the same names. -/
theorem Definition.WritesOut.nonterminals_eq (out : d.WritesOut g) :
    SortedSet.ofList d.nonterminals = g.nonterminals := by
  ext n
  rw [SortedSet.mem_ofList, out.mem_nonterminals]

/-- **A grammar over expressible symbols is defined by its written forms.** -/
theorem Definition.WritesOut.build_eq (wf : g.WellFormed)
    (expressible : Form.Expressible g.nonterminals g.terminals) (out : d.WritesOut g) :
    d.build = .ok g := by
  have back : ∀ p, p ∈ g.productions → d.production (p.lhs, .literal p.rhs.text) = .ok p := by
    intro p mem
    have read := Form.forall_read?_text_iff.2 (Form.forall_read?_symbol_iff.2 expressible) p.rhs
      ⟨fun n occurs => wf.declares p mem _ occurs, fun c occurs => wf.declares p mem _ occurs⟩
    rw [production, out.nonterminals_eq]
    simp only [read]
  have terminals : SortedSet.ofList d.terminals = g.terminals := by
    ext c
    rw [SortedSet.mem_ofList, out.mem_terminals]
  have productions : SortedSet.ofList (d.rules.filterMap fun rule => (d.production rule).toOption) =
      g.productions := by
    ext p
    rw [SortedSet.mem_ofList, List.mem_filterMap]
    constructor
    · rintro ⟨rule, given, built⟩
      obtain ⟨q, mem, rfl⟩ := (out.mem_rules rule).1 given
      rw [back q mem] at built
      cases built
      exact mem
    · intro mem
      exact ⟨_, (out.mem_rules _).2 ⟨p, mem, rfl⟩, by rw [back p mem]; rfl⟩
  have readable : d.readable = g := by
    rw [readable, out.start_eq, out.nonterminals_eq, terminals, productions]
  refine Definition.build_eq_ok_iff.2 ⟨?_, readable ▸ wf, readable⟩
  refine List.filterMap_eq_nil_iff.2 fun rule given => ?_
  obtain ⟨p, mem, rfl⟩ := (out.mem_rules rule).1 given
  simp only [back p mem]

/-- The definition that writes out a grammar in the order of its productions. -/
def written (g : Grammar) : Definition where
  start := g.start
  nonterminals := g.nonterminals.toList
  terminals := g.terminals.toList
  rules := g.productions.toList.map fun p => (p.lhs, .literal p.rhs.text)

/-- Every grammar can be written out. -/
theorem writesOut_written (g : Grammar) : g.written.WritesOut g where
  start_eq := rfl
  mem_nonterminals _ := SortedSet.mem_toList
  mem_terminals _ := SortedSet.mem_toList
  mem_rules rule := by
    simp only [written, List.mem_map, SortedSet.mem_toList]

/-- **Writing and reading are inverse exactly on the expressible symbols**: all forms over some names and
letters are read back from their written forms just when the names and letters are expressible, and
then every well-formed grammar over them is built again by any definition that writes it out. -/
theorem readsBack_iff_expressible (names : SortedSet String) (letters : SortedSet Char) :
    ((∀ form, Form.Over names letters form → Form.read? names form.text = some form) ↔
        Form.Expressible names letters) ∧
      (Form.Expressible names letters → ∀ g : Grammar, g.WellFormed → g.nonterminals ⊆ names →
        g.terminals ⊆ letters → ∀ d : Definition, d.WritesOut g → d.build = .ok g) := by
  refine ⟨Form.forall_read?_text_iff.trans Form.forall_read?_symbol_iff, ?_⟩
  intro expressible g wf fewerNames fewerLetters d out
  exact out.build_eq wf (expressible.mono fewerNames fewerLetters)

/-- A grammar whose names are empty, hold an opening bracket, a blank or `ε`, or are a closing bracket. -/
def bracketing : Grammar where
  start := "S"
  nonterminals := .ofList ["S", "", "a<b ε", ">"]
  terminals := .ofList ['a', '-']
  productions := .ofList [
    ⟨"S", [.nonterminal "", .nonterminal "a<b ε", .nonterminal ">", .terminal 'a']⟩, ⟨"", []⟩,
    ⟨"a<b ε", [.terminal '-', .nonterminal ">", .terminal '-']⟩, ⟨">", [.nonterminal "S"]⟩]

/-- The bracketing grammar is built again from its written forms, although its names look like brackets.
A longer name with a closing bracket is not read back. -/
theorem readsBack_iff_expressible_bracketing :
    bracketing.WellFormed ∧ Form.Expressible bracketing.nonterminals bracketing.terminals ∧
      bracketing.written.build = .ok bracketing ∧
      ¬ Form.Expressible (.ofList ["a>b"]) ∅ ∧
      ¬ ∀ form, Form.Over (.ofList ["a>b"]) ∅ form →
        Form.read? (.ofList ["a>b"]) form.text = some form := by
  have wf : bracketing.WellFormed := by decide +kernel
  have expressible : Form.Expressible bracketing.nonterminals bracketing.terminals := by
    decide +kernel
  have closing : ¬ Form.Expressible (.ofList ["a>b"]) ∅ := by decide +kernel
  have rebuilt := (readsBack_iff_expressible _ _).2 expressible bracketing wf (fun _ h => h)
    (fun _ h => h) bracketing.written (writesOut_written bracketing)
  exact ⟨wf, expressible, rebuilt, closing,
    mt (readsBack_iff_expressible _ _).1.1 closing⟩

end Grammar

end FormalLanguages
