import FormalLanguages.Grammar.Nullable
import FormalLanguages.Proofs.Grammar.Yield

/-! # Removing empty right-hand sides

The nullable nonterminals are those that yield the empty word (`mem_nullable_iff`). Leaving nullable
symbols out of right-hand sides makes up for the empty ones: `Grammar.withoutErasing` yields the
same non-empty words from every nonterminal, and the same words from the start. -/

namespace FormalLanguages

/-! ## Thinnings -/

namespace Symbol

@[simp] theorem isAmong_terminal (names : SortedSet String) (c : Char) :
    (terminal c).isAmong names = false := rfl

@[simp] theorem isAmong_nonterminal {names : SortedSet String} {n : String} :
    (nonterminal n).isAmong names = true ↔ n ∈ names := by
  simp [isAmong]

/-- Only nonterminals can be left out. -/
theorem isAmong_iff {names : SortedSet String} {s : Symbol} :
    s.isAmong names = true ↔ ∃ n, s = nonterminal n ∧ n ∈ names := by
  cases s <;> simp

end Symbol

namespace Form

variable {names : SortedSet String}

@[simp] theorem mem_thinnings_nil {thin : Form} : thin ∈ thinnings names [] ↔ thin = [] :=
  List.mem_singleton

/-- A thinning keeps the first symbol, or leaves it out if that is allowed. -/
theorem mem_thinnings_cons {s : Symbol} {rest thin : Form} :
    thin ∈ thinnings names (s :: rest) ↔
      (∃ tail, tail ∈ thinnings names rest ∧ s :: tail = thin) ∨
        s.isAmong names = true ∧ thin ∈ thinnings names rest := by
  by_cases among : s.isAmong names = true
  · simp [thinnings, among]
  · simp [thinnings, among]

/-- Nothing needs to be left out. -/
theorem self_mem_thinnings (form : Form) : form ∈ thinnings names form := by
  induction form with
  | nil => simp [thinnings]
  | cons s rest ih => exact mem_thinnings_cons.2 (.inl ⟨rest, ih, rfl⟩)

/-- Thinning keeps the order of symbols and adds none. -/
theorem sublist_of_mem_thinnings {form thin : Form} (h : thin ∈ thinnings names form) :
    thin.Sublist form := by
  induction form generalizing thin with
  | nil =>
    obtain rfl := mem_thinnings_nil.1 h
    exact List.Sublist.refl []
  | cons s rest ih =>
    rcases mem_thinnings_cons.1 h with ⟨tail, inside, rfl⟩ | ⟨_, inside⟩
    · exact (ih inside).cons_cons s
    · exact (ih inside).cons s

/-- A form without any of the given names cannot be thinned. -/
theorem mem_thinnings_of_forall_not {form thin : Form}
    (none : ∀ s ∈ form, s.isAmong names = false) :
    thin ∈ thinnings names form ↔ thin = form := by
  refine ⟨fun h => ?_, fun h => by rw [h]; exact self_mem_thinnings form⟩
  induction form generalizing thin with
  | nil => exact mem_thinnings_nil.1 h
  | cons s rest ih =>
    rcases mem_thinnings_cons.1 h with ⟨tail, inside, rfl⟩ | ⟨among, _⟩
    · rw [ih (fun t ht => none t (List.mem_cons_of_mem _ ht)) inside]
    · rw [none s List.mem_cons_self] at among
      cases among

/-- A form consists of nonterminals of some kind when it has no letters and its names are of this
kind. -/
theorem forall_isNonterminal_iff {Holds : String → Prop} {form : Form} :
    (∀ s ∈ form, ∃ n, s = .nonterminal n ∧ Holds n) ↔
      (form.all fun s => !s.isTerminal) = true ∧ ∀ n ∈ form.names, Holds n := by
  rw [List.all_eq_true]
  constructor
  · intro each
    refine ⟨fun s hs => ?_, fun n hn => ?_⟩
    · obtain ⟨n, rfl, _⟩ := each s hs
      rfl
    · obtain ⟨_, same, holds⟩ := each _ (mem_names.1 hn)
      cases same
      exact holds
  · rintro ⟨noLetter, holds⟩ s hs
    cases s with
    | terminal c =>
      have apart := noLetter _ hs
      cases apart
    | nonterminal n => exact ⟨n, rfl, holds n (mem_names.2 hs)⟩

end Form

namespace Grammar

/-! ## Nullable nonterminals -/

section Nullable

variable {g : Grammar}

/-- A form vanishes when each of its symbols does. -/
theorem yields_empty_iff {form : Form} : g.Yields form [] ↔ ∀ s ∈ form, g.Yields [s] [] := by
  induction form with
  | nil => simp
  | cons s rest ih =>
    rw [yields_cons_iff, List.forall_mem_cons, ← ih]
    constructor
    · rintro ⟨first, second, empty, head, tail⟩
      obtain ⟨rfl, rfl⟩ := List.append_eq_nil_iff.1 empty.symm
      exact ⟨head, tail⟩
    · rintro ⟨head, tail⟩
      exact ⟨[], [], rfl, head, tail⟩

/-- A clause of nullability stands for an alternative without letters. -/
theorem mem_nullableClauses_iff {c : Clause String} :
    c ∈ g.nullableClauses ↔ ∃ p, p ∈ g.productions ∧
      (p.rhs.all fun s => !s.isTerminal) = true ∧ ⟨p.lhs, Form.names p.rhs⟩ = c := by
  rw [nullableClauses, List.mem_map]
  refine exists_congr fun p => ?_
  rw [List.mem_filter, and_assoc, SortedSet.mem_toList]

/-- A left-hand side is nullable when all symbols of one of its alternatives are. -/
theorem mem_nullable_of_mem {p : Production} (mem : p ∈ g.productions)
    (among : ∀ s ∈ p.rhs, s.isAmong g.nullable = true) : p.lhs ∈ g.nullable := by
  -- such an alternative has no letters, so it gives rise to a clause
  obtain ⟨noLetter, nullable⟩ :=
    Form.forall_isNonterminal_iff.1 fun s hs => Symbol.isAmong_iff.1 (among s hs)
  refine mem_consequences.2 (.fire ⟨p.lhs, Form.names p.rhs⟩ ?_ fun n hn => ?_)
  · exact mem_nullableClauses_iff.2 ⟨p, mem, noLetter, rfl⟩
  · exact mem_consequences.1 (nullable n hn)

/-- The nullable nonterminals are the least set that holds a left-hand side when it holds all symbols
of one of its alternatives. -/
theorem nullable_induction (Holds : String → Prop)
    (step : ∀ p, p ∈ g.productions → (∀ s ∈ p.rhs, ∃ n, s = .nonterminal n ∧ Holds n) →
      Holds p.lhs)
    {name : String} (h : name ∈ g.nullable) : Holds name := by
  replace h := mem_consequences.1 h
  induction h with
  | fire c mem _ ih =>
    obtain ⟨p, hp, noLetter, rfl⟩ := mem_nullableClauses_iff.1 mem
    exact step p hp (Form.forall_isNonterminal_iff.2 ⟨noLetter, ih⟩)

/-- What vanishes consists of nullable nonterminals. -/
theorem isAmong_nullable_of_yields {form : Form} (h : g.Yields form []) :
    ∀ s ∈ form, s.isAmong g.nullable = true := by
  generalize empty : ([] : List Char) = word at h
  induction h with
  | nil => simp
  | letter _ _ => cases empty
  | @expand name rhs rest first second mem _ _ ihHead ihTail =>
    obtain ⟨rfl, rfl⟩ := List.append_eq_nil_iff.1 empty.symm
    have nullable : name ∈ g.nullable := mem_nullable_of_mem mem (ihHead rfl)
    exact List.forall_mem_cons.2 ⟨Symbol.isAmong_nonterminal.2 nullable, ihTail rfl⟩

/-- **Nullable nonterminals** are those that yield the empty word. -/
theorem mem_nullable_iff {name : String} :
    name ∈ g.nullable ↔ g.Yields [.nonterminal name] [] := by
  constructor
  · intro h
    refine nullable_induction (fun n => g.Yields [.nonterminal n] []) ?_ h
    intro p mem vanishes
    refine yields_nonterminal_iff.2 ⟨p.rhs, mem, yields_empty_iff.2 fun s hs => ?_⟩
    obtain ⟨n, rfl, d⟩ := vanishes s hs
    exact d
  · intro h
    exact Symbol.isAmong_nonterminal.1 (isAmong_nullable_of_yields h _ List.mem_cons_self)

end Nullable

/-! ## The grammar without empty right-hand sides -/

section WithoutErasing

variable {g : Grammar}

/-- The productions that remain: thinnings that lead on, and the empty one of a nullable start. -/
theorem mem_withoutErasing {p : Production} :
    p ∈ g.withoutErasing.productions ↔
      (g.start ∈ g.nullable ∧ p = ⟨g.start, []⟩) ∨
        ∃ rhs, ⟨p.lhs, rhs⟩ ∈ g.productions ∧ p.rhs ∈ Form.thinnings g.nullable rhs ∧
          p.rhs ≠ [] ∧ p.rhs ≠ [.nonterminal p.lhs] := by
  have vanishing : p ∈ (if g.start ∈ g.nullable then {⟨g.start, []⟩} else ∅ :
      SortedSet Production) ↔ g.start ∈ g.nullable ∧ p = ⟨g.start, []⟩ := by
    by_cases h : g.start ∈ g.nullable <;> simp [h]
  have thinned : p ∈ g.productions.bind (thinnedProductions g.nullable) ↔
      ∃ rhs, ⟨p.lhs, rhs⟩ ∈ g.productions ∧ p.rhs ∈ Form.thinnings g.nullable rhs ∧
        p.rhs ≠ [] ∧ p.rhs ≠ [.nonterminal p.lhs] := by
    simp only [SortedSet.mem_bind, thinnedProductions, List.mem_map, List.mem_filter,
      Form.mem_variants, bne_iff_ne]
    constructor
    · rintro ⟨q, mem, thin, ⟨⟨inside, nonempty⟩, other⟩, rfl⟩
      exact ⟨q.rhs, mem, inside, nonempty, other⟩
    · rintro ⟨rhs, mem, inside, nonempty, other⟩
      exact ⟨⟨p.lhs, rhs⟩, mem, p.rhs, ⟨⟨inside, nonempty⟩, other⟩, rfl⟩
  rw [← vanishing, ← thinned]
  exact SortedSet.mem_union

@[simp] theorem start_withoutErasing : g.withoutErasing.start = g.start := rfl

@[simp] theorem nonterminals_withoutErasing :
    g.withoutErasing.nonterminals = g.nonterminals := rfl

@[simp] theorem terminals_withoutErasing : g.withoutErasing.terminals = g.terminals := rfl

/-- What a thinning yields, the whole form yields: the symbols left out vanish. -/
theorem yields_of_mem_thinnings {form thin : Form} {word : List Char}
    (h : thin ∈ Form.thinnings g.nullable form) (d : g.Yields thin word) : g.Yields form word := by
  induction form generalizing thin word with
  | nil =>
    rw [← Form.mem_thinnings_nil.1 h]
    exact d
  | cons s rest ih =>
    rcases Form.mem_thinnings_cons.1 h with ⟨tail, inside, rfl⟩ | ⟨among, inside⟩
    · obtain ⟨first, second, rfl, head, others⟩ := yields_cons_iff.1 d
      exact yields_cons_iff.2 ⟨first, second, rfl, head, ih inside others⟩
    · obtain ⟨n, rfl, nullable⟩ := Symbol.isAmong_iff.1 among
      exact yields_cons_iff.2 ⟨[], word, rfl, mem_nullable_iff.1 nullable, ih inside d⟩

/-- Without empty right-hand sides nothing new is yielded. -/
theorem yields_of_withoutErasing {form : Form} {word : List Char}
    (d : g.withoutErasing.Yields form word) : g.Yields form word := by
  refine d.simulate fun p mem word hw => ?_
  rcases mem_withoutErasing.1 mem with ⟨nullable, rfl⟩ | ⟨rhs, mem, inside, -⟩
  · rw [yields_nil_iff.1 hw]
    exact mem_nullable_iff.1 nullable
  · exact yields_nonterminal_iff.2 ⟨rhs, mem, yields_of_mem_thinnings inside hw⟩

/-- What a form yields, some thinning of it yields without empty right-hand sides; for the empty
word this is the empty thinning. -/
theorem Yields.exists_thinning {form : Form} {word : List Char} (d : g.Yields form word) :
    ∃ thin, thin ∈ Form.thinnings g.nullable form ∧ g.withoutErasing.Yields thin word ∧
      (word = [] → thin = []) := by
  induction d with
  | nil => exact ⟨[], Form.self_mem_thinnings [], .nil, fun _ => rfl⟩
  | @letter c rest word _ ih =>
    obtain ⟨thin, inside, tail, -⟩ := ih
    exact ⟨_, Form.mem_thinnings_cons.2 (.inl ⟨thin, inside, rfl⟩), .letter tail, by simp⟩
  | @expand name rhs rest first second mem head _ ihHead ihTail =>
    obtain ⟨thinRhs, insideRhs, dRhs, -⟩ := ihHead
    obtain ⟨thin, inside, tail, empty⟩ := ihTail
    by_cases vanishes : first = []
    -- the nonterminal contributes nothing, so it is left out
    · subst vanishes
      have nullable : name ∈ g.nullable :=
        mem_nullable_iff.2 (yields_nonterminal_iff.2 ⟨rhs, mem, head⟩)
      exact ⟨thin, Form.mem_thinnings_cons.2 (.inr ⟨Symbol.isAmong_nonterminal.2 nullable, inside⟩),
        tail, empty⟩
    -- it contributes something, so its alternative does not vanish altogether
    · have nonempty : thinRhs ≠ [] := fun h => vanishes (yields_nil_iff.1 (h ▸ dRhs))
      have contributes : g.withoutErasing.Yields [.nonterminal name] first := by
        by_cases same : thinRhs = [.nonterminal name]
        · exact same ▸ dRhs
        · exact yields_nonterminal_iff.2
            ⟨thinRhs, mem_withoutErasing.2 (.inr ⟨rhs, mem, insideRhs, nonempty, same⟩), dRhs⟩
      refine ⟨_, Form.mem_thinnings_cons.2 (.inl ⟨thin, inside, rfl⟩),
        yields_cons_iff.2 ⟨first, second, rfl, contributes, tail⟩, fun h => ?_⟩
      exact absurd (List.append_eq_nil_iff.1 h).1 vanishes

/-- Every nonterminal yields the same **non-empty words** without empty right-hand sides. -/
theorem yields_withoutErasing_iff {name : String} {word : List Char} (nonempty : word ≠ []) :
    g.withoutErasing.Yields [.nonterminal name] word ↔ g.Yields [.nonterminal name] word := by
  refine ⟨yields_of_withoutErasing, fun d => ?_⟩
  obtain ⟨thin, inside, d, -⟩ := d.exists_thinning
  rcases Form.mem_thinnings_cons.1 inside with ⟨tail, inTail, rfl⟩ | ⟨_, inTail⟩
  · rw [Form.mem_thinnings_nil.1 inTail] at d
    exact d
  · rw [Form.mem_thinnings_nil.1 inTail] at d
    exact absurd (yields_nil_iff.1 d) nonempty

/-- The start keeps its words without empty right-hand sides, also the empty one. -/
theorem yields_start_withoutErasing_iff {word : List Char} :
    g.withoutErasing.Yields [.nonterminal g.start] word ↔
      g.Yields [.nonterminal g.start] word := by
  by_cases empty : word = []
  · subst empty
    refine ⟨yields_of_withoutErasing, fun d => ?_⟩
    have nullable := mem_nullable_iff.2 d
    exact yields_nonterminal_iff.2 ⟨[], mem_withoutErasing.2 (.inl ⟨nullable, rfl⟩), .nil⟩
  · exact yields_withoutErasing_iff empty

/-- **Removing empty right-hand sides keeps the language.** -/
theorem language_withoutErasing {word : List Char} :
    g.withoutErasing.Language word ↔ g.Language word := by
  rw [language_iff, language_iff]
  exact yields_start_withoutErasing_iff

/-- Only the start can still be rewritten into the empty form, and only if it is nullable. -/
theorem nil_mem_withoutErasing_iff {name : String} :
    ⟨name, []⟩ ∈ g.withoutErasing.productions ↔ name = g.start ∧ g.start ∈ g.nullable := by
  rw [mem_withoutErasing]
  constructor
  · rintro (⟨nullable, same⟩ | ⟨_, _, _, nonempty, _⟩)
    · exact ⟨congrArg Production.lhs same, nullable⟩
    · exact absurd rfl nonempty
  · rintro ⟨rfl, nullable⟩
    exact .inl ⟨nullable, rfl⟩

/-- No nonterminal is rewritten into itself. -/
theorem self_not_mem_withoutErasing (name : String) :
    ⟨name, [.nonterminal name]⟩ ∉ g.withoutErasing.productions := by
  intro mem
  rcases mem_withoutErasing.1 mem with ⟨_, same⟩ | ⟨_, _, _, _, other⟩
  · cases congrArg Production.rhs same
  · exact other rfl

/-- Symbols on the right-hand sides were on right-hand sides before. -/
theorem exists_mem_of_mem_withoutErasing {p : Production}
    (h : p ∈ g.withoutErasing.productions) {s : Symbol} (hs : s ∈ p.rhs) :
    ∃ rhs, ⟨p.lhs, rhs⟩ ∈ g.productions ∧ s ∈ rhs := by
  rcases mem_withoutErasing.1 h with ⟨_, rfl⟩ | ⟨rhs, mem, inside, _⟩
  · cases hs
  · exact ⟨rhs, mem, (Form.sublist_of_mem_thinnings inside).subset hs⟩

end WithoutErasing

end Grammar

end FormalLanguages
