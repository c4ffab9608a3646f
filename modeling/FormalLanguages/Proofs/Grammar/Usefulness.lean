import FormalLanguages.Grammar.Useful
import FormalLanguages.Proofs.Grammar.Yield

/-! # Dropping useless nonterminals

A nonterminal is useful when a derivation from the start can lead to it (`Reachable`) and it
generates some word (`Productive`). The clauses of `Grammar.reachable` and `Grammar.productive`
compute these notions exactly. Dropping the other nonterminals changes nothing about those that are
kept: not the words they yield, and not whether they are reachable or productive. -/

namespace FormalLanguages.Grammar

/-- A nonterminal is **reachable** when it occurs in a form that is derived from the start. -/
def Reachable (g : Grammar) (name : String) : Prop :=
  ∃ form, g.Derives [.nonterminal g.start] form ∧ .nonterminal name ∈ form

/-- A nonterminal is **productive** when it generates some word. -/
def Productive (g : Grammar) (name : String) : Prop := ∃ word, g.Generates name word

section Reachability

variable {g : Grammar}

theorem start_mem_reachable : g.start ∈ g.reachable :=
  mem_consequences.2 (.fire ⟨g.start, []⟩ List.mem_cons_self (by simp))

/-- From a reachable nonterminal its productions lead to reachable nonterminals only. -/
theorem mem_reachable_of_mem_rhs {p : Production} (mem : p ∈ g.productions)
    (left : p.lhs ∈ g.reachable) {n : String} (hn : .nonterminal n ∈ p.rhs) :
    n ∈ g.reachable := by
  refine mem_consequences.2 (.fire ⟨n, [p.lhs]⟩ (List.mem_cons_of_mem _ ?_) ?_)
  · exact List.mem_flatMap.2 ⟨p, mem, List.mem_map.2 ⟨n, Form.mem_names.2 hn, rfl⟩⟩
  · intro a ha
    rw [List.mem_singleton.1 ha]
    exact mem_consequences.1 left

/-- The reachable nonterminals are the least set that holds the start and goes along with
productions. -/
theorem reachable_induction (Holds : String → Prop) (start : Holds g.start)
    (step : ∀ p, p ∈ g.productions → p.lhs ∈ g.reachable → Holds p.lhs →
      ∀ n, .nonterminal n ∈ p.rhs → Holds n)
    {name : String} (h : name ∈ g.reachable) : Holds name := by
  replace h := mem_consequences.1 h
  induction h with
  | fire c mem premises ih =>
    rcases List.mem_cons.1 mem with rfl | mem
    · exact start
    · obtain ⟨p, hp, clause⟩ := List.mem_flatMap.1 mem
      obtain ⟨n, hn, rfl⟩ := List.mem_map.1 clause
      have left := mem_consequences.2 (premises p.lhs List.mem_cons_self)
      exact step p hp left (ih p.lhs List.mem_cons_self) n (Form.mem_names.1 hn)

/-- A derivation leads from reachable nonterminals to reachable nonterminals. -/
theorem Derives.mem_reachable {form other : Form} (d : g.Derives form other)
    (inside : ∀ n, .nonterminal n ∈ form → n ∈ g.reachable) :
    ∀ n, .nonterminal n ∈ other → n ∈ g.reachable := by
  induction d with
  | refl => exact inside
  | step first _ ih =>
    refine ih fun n hn => ?_
    obtain ⟨before, after, p, mem⟩ := first
    simp only [List.mem_append, List.mem_cons] at hn inside
    rcases hn with (hn | hn) | hn
    · exact inside n (.inl hn)
    · exact mem_reachable_of_mem_rhs mem (inside p.lhs (.inr (.inl rfl))) hn
    · exact inside n (.inr (.inr hn))

/-- **Reachability is computed exactly.** -/
theorem mem_reachable_iff {name : String} : name ∈ g.reachable ↔ g.Reachable name := by
  constructor
  · intro h
    refine reachable_induction g.Reachable ⟨_, .refl _, List.mem_cons_self⟩ ?_ h
    intro p mem _ left n hn
    obtain ⟨form, d, occurs⟩ := left
    obtain ⟨before, after, rfl⟩ := List.append_of_mem occurs
    refine ⟨before ++ p.rhs ++ after, d.trans (.single (.expand before after p mem)), ?_⟩
    simp [hn]
  · rintro ⟨form, d, occurs⟩
    exact d.mem_reachable (Form.forall_names_singleton start_mem_reachable) name occurs

end Reachability

section Productivity

variable {g : Grammar}

/-- A form yields some word when each of its nonterminals does. -/
theorem exists_yields_iff {form : Form} :
    (∃ word, g.Yields form word) ↔
      ∀ n, .nonterminal n ∈ form → ∃ word, g.Yields [.nonterminal n] word := by
  induction form with
  | nil => exact ⟨by simp, fun _ => ⟨[], .nil⟩⟩
  | cons s rest ih =>
    constructor
    · rintro ⟨word, d⟩ n hn
      obtain ⟨first, second, rfl, head, tail⟩ := yields_cons_iff.1 d
      rcases List.mem_cons.1 hn with rfl | hn
      · exact ⟨first, head⟩
      · exact ih.1 ⟨second, tail⟩ n hn
    · intro each
      obtain ⟨second, tail⟩ := ih.2 fun n hn => each n (List.mem_cons_of_mem _ hn)
      cases s with
      | terminal c => exact ⟨c :: second, .letter tail⟩
      | nonterminal n =>
        obtain ⟨first, head⟩ := each n List.mem_cons_self
        exact ⟨first ++ second, yields_cons_iff.2 ⟨first, second, rfl, head, tail⟩⟩

/-- A left-hand side is found productive when all nonterminals of one of its alternatives are. -/
theorem mem_productive_of_mem {p : Production} (mem : p ∈ g.productions)
    (inside : ∀ n, .nonterminal n ∈ p.rhs → n ∈ g.productive) : p.lhs ∈ g.productive := by
  refine mem_consequences.2 (.fire ⟨p.lhs, Form.names p.rhs⟩ (List.mem_map.2 ⟨p, mem, rfl⟩) ?_)
  intro n hn
  exact mem_consequences.1 (inside n (Form.mem_names.1 hn))

/-- The productive nonterminals are the least set that holds a left-hand side when it holds all
nonterminals of one of its alternatives. -/
theorem productive_induction (Holds : String → Prop)
    (step : ∀ p, p ∈ g.productions → (∀ n, .nonterminal n ∈ p.rhs → Holds n) → Holds p.lhs)
    {name : String} (h : name ∈ g.productive) : Holds name := by
  replace h := mem_consequences.1 h
  induction h with
  | fire c mem _ ih =>
    obtain ⟨p, hp, rfl⟩ := List.mem_map.1 mem
    exact step p hp fun n hn => ih n (Form.mem_names.2 hn)

/-- The nonterminals of a form that yields a word are productive. -/
theorem Yields.mem_productive {form : Form} {word : List Char} (d : g.Yields form word) :
    ∀ n, .nonterminal n ∈ form → n ∈ g.productive := by
  induction d with
  | nil => simp
  | letter _ ih =>
    intro n hn
    rcases List.mem_cons.1 hn with h | hn
    · cases h
    · exact ih n hn
  | expand mem _ _ ihHead ihTail =>
    intro n hn
    rcases List.mem_cons.1 hn with same | hn
    · cases same
      exact mem_productive_of_mem mem ihHead
    · exact ihTail n hn

/-- A nonterminal is found productive when it yields some word. -/
theorem mem_productive_iff_yields {name : String} :
    name ∈ g.productive ↔ ∃ word, g.Yields [.nonterminal name] word := by
  constructor
  · intro h
    refine productive_induction (fun n => ∃ word, g.Yields [.nonterminal n] word) ?_ h
    intro p mem each
    obtain ⟨word, d⟩ := exists_yields_iff.2 each
    exact ⟨word, yields_nonterminal_iff.2 ⟨p.rhs, mem, d⟩⟩
  · rintro ⟨word, d⟩
    exact d.mem_productive name List.mem_cons_self

theorem productive_iff {name : String} :
    g.Productive name ↔ ∃ word, g.Yields [.nonterminal name] word :=
  exists_congr fun _ => generates_iff

/-- **Productivity is computed exactly.** -/
theorem mem_productive_iff {name : String} : name ∈ g.productive ↔ g.Productive name :=
  mem_productive_iff_yields.trans productive_iff.symm

end Productivity

/-! ## Keeping the reachable nonterminals -/

section ReachablePart

variable {g : Grammar}

@[simp] theorem mem_reachablePart {p : Production} :
    p ∈ g.reachablePart.productions ↔ p ∈ g.productions ∧ p.lhs ∈ g.reachable := by
  simp [reachablePart]

@[simp] theorem start_reachablePart : g.reachablePart.start = g.start := rfl

@[simp] theorem nonterminals_reachablePart : g.reachablePart.nonterminals = g.reachable := rfl

@[simp] theorem terminals_reachablePart : g.reachablePart.terminals = g.terminals := rfl

/-- Reachable nonterminals **keep what they yield**. -/
theorem yields_reachablePart_iff {form : Form}
    (inside : ∀ n, .nonterminal n ∈ form → n ∈ g.reachable) {word : List Char} :
    g.reachablePart.Yields form word ↔ g.Yields form word := by
  constructor
  · exact Yields.mono fun p hp => (mem_reachablePart.1 hp).1
  · intro d
    refine d.restrict (· ∈ g.reachable) (fun p mem left => ?_) inside
    exact ⟨mem_reachablePart.2 ⟨mem, left⟩, fun n hn => mem_reachable_of_mem_rhs mem left hn⟩

theorem yields_nonterminal_reachablePart_iff {name : String} (inside : name ∈ g.reachable)
    {word : List Char} :
    g.reachablePart.Yields [.nonterminal name] word ↔ g.Yields [.nonterminal name] word :=
  yields_reachablePart_iff (Form.forall_names_singleton inside)

/-- **Dropping unreachable nonterminals keeps the language.** -/
theorem language_reachablePart {word : List Char} :
    g.reachablePart.Language word ↔ g.Language word := by
  rw [language_iff, language_iff]
  exact yields_nonterminal_reachablePart_iff start_mem_reachable

/-- What was reachable stays reachable, and everything else is gone. -/
theorem reachable_reachablePart : g.reachablePart.reachable = g.reachable := by
  ext n
  constructor
  · intro h
    refine reachable_induction (g := g.reachablePart) (· ∈ g.reachable) start_mem_reachable ?_ h
    intro p mem _ left n hn
    exact mem_reachable_of_mem_rhs (mem_reachablePart.1 mem).1 left hn
  · intro h
    have start : g.start ∈ g.reachablePart.reachable := start_mem_reachable (g := g.reachablePart)
    refine reachable_induction (g := g) (· ∈ g.reachablePart.reachable) start ?_ h
    intro p mem left kept n hn
    exact mem_reachable_of_mem_rhs (mem_reachablePart.2 ⟨mem, left⟩) kept hn

end ReachablePart

/-! ## Keeping the productive nonterminals -/

section ProductivePart

variable {g : Grammar}

@[simp] theorem mem_productivePart {p : Production} :
    p ∈ g.productivePart.productions ↔ p ∈ g.productions ∧
      p.lhs ∈ g.productive ∧ ∀ n, .nonterminal n ∈ p.rhs → n ∈ g.productive := by
  simp [productivePart]

@[simp] theorem start_productivePart : g.productivePart.start = g.start := rfl

@[simp] theorem terminals_productivePart : g.productivePart.terminals = g.terminals := rfl

@[simp] theorem mem_nonterminals_productivePart {n : String} :
    n ∈ g.productivePart.nonterminals ↔ n = g.start ∨ n ∈ g.productive := SortedSet.mem_insert

/-- Every form **keeps what it yields**, since whatever occurs in its derivations is productive. -/
theorem yields_productivePart_iff {form : Form} {word : List Char} :
    g.productivePart.Yields form word ↔ g.Yields form word := by
  constructor
  · exact Yields.mono fun p hp => (mem_productivePart.1 hp).1
  · intro d
    induction d with
    | nil => exact .nil
    | letter _ ih => exact .letter ih
    | @expand name rhs _ _ _ mem head _ ihHead ihTail =>
      have left : name ∈ g.productive :=
        mem_productive_iff_yields.2 ⟨_, yields_nonterminal_iff.2 ⟨rhs, mem, head⟩⟩
      exact .expand (mem_productivePart.2 ⟨mem, left, head.mem_productive⟩) ihHead ihTail

/-- **Dropping unproductive nonterminals keeps the language.** -/
theorem language_productivePart {word : List Char} :
    g.productivePart.Language word ↔ g.Language word := by
  rw [language_iff, language_iff]
  exact yields_productivePart_iff

/-- What was productive stays productive, and everything else is gone. -/
theorem productive_productivePart : g.productivePart.productive = g.productive := by
  ext n
  rw [mem_productive_iff_yields, mem_productive_iff_yields]
  exact exists_congr fun _ => yields_productivePart_iff

end ProductivePart

end FormalLanguages.Grammar
