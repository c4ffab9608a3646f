import FormalLanguages.Grammar.NormalForm
import FormalLanguages.Proofs.Grammar.BinarizationWords
import FormalLanguages.Proofs.Grammar.Integrity

/-! # The shape of shortened grammars

A grammar that is free of units is in normal form once its right-hand sides are shortened: what is
left are letters, pairs of nonterminals, and the empty right-hand side of an isolated start. A
trimmed grammar stays trimmed, since a chain nonterminal is met on the way through the right-hand
side that it was made for. -/

namespace FormalLanguages.Grammar

variable {g : Grammar}

/-- The three kinds of right-hand sides in normal form. -/
theorem conforms_iff {p : Production} :
    g.Conforms p ↔ (p.rhs = [] ∧ p.lhs = g.start ∧ g.StartIsolated) ∨
      (∃ c, p.rhs = [.terminal c]) ∨ ∃ m n, p.rhs = [.nonterminal m, .nonterminal n] := by
  rw [Conforms, startIsolated_iff]
  match p.rhs with
  | [] => simp
  | [.terminal c] => simp
  | [.nonterminal n] => simp
  | [.nonterminal m, .nonterminal n] => simp
  | [.terminal c, t] => simp
  | [.nonterminal m, .terminal c] => simp
  | s :: t :: u :: rest => simp

/-! ## Productions in normal form -/

section Conforming

variable (normal : g.IsNormal)

include normal

/-- Only an isolated start vanishes. -/
theorem IsNormal.eq_start_of_empty {name : String} (mem : ⟨name, []⟩ ∈ g.productions) :
    name = g.start ∧ g.StartIsolated := by
  rcases conforms_iff.1 (normal _ mem) with ⟨_, start⟩ | ⟨c, other⟩ | ⟨m, n, other⟩
  · exact start
  · cases other
  · cases other

/-- No production only renames. -/
theorem IsNormal.no_unit (name n : String) : ⟨name, [.nonterminal n]⟩ ∉ g.productions := by
  intro mem
  rcases conforms_iff.1 (normal _ mem) with ⟨other, _⟩ | ⟨c, other⟩ | ⟨m, k, other⟩
  · cases other
  · cases other
  · cases other

/-- A nonterminal that yields the empty word is rewritten into it at once. -/
theorem IsNormal.nil_mem_of_mem_nullable {name : String} (h : name ∈ g.nullable) :
    ⟨name, []⟩ ∈ g.productions := by
  refine nullable_induction (fun n => ⟨n, []⟩ ∈ g.productions) ?_ h
  intro p mem vanishes
  obtain ⟨lhs, rhs⟩ := p
  rcases conforms_iff.1 (normal _ mem) with ⟨empty, _⟩ | ⟨c, isLetter⟩ | ⟨m, n, isPair⟩
  · cases empty
    exact mem
  · cases isLetter
    obtain ⟨n, same, _⟩ := vanishes _ List.mem_cons_self
    cases same
  -- the first of the two would be the start, which occurs on no right-hand side
  · cases isPair
    obtain ⟨k, same, empty⟩ := vanishes _ List.mem_cons_self
    cases same
    obtain ⟨start, isolated⟩ := normal.eq_start_of_empty empty
    have apart := isolated _ mem
    rw [← start] at apart
    exact absurd List.mem_cons_self apart

end Conforming

/-! ## Symbols of shortened right-hand sides -/

/-- Lifting leaves a symbol alone or puts the proxy of a letter in its place. -/
theorem lifted_eq_or (s : Symbol) :
    g.lifted s = s ∨ ∃ c, s = .terminal c ∧ g.lifted s = .nonterminal (g.proxyName c) := by
  cases s with
  | terminal c => exact .inr ⟨c, rfl, rfl⟩
  | nonterminal n => exact .inl rfl

/-- A shortened ending holds symbols of the ending, proxies and chain nonterminals. -/
theorem Ending.of_mem_short {form : Form} (h : g.Ending form) {s : Symbol}
    (hs : s ∈ g.short form) :
    s ∈ form ∨ (∃ c, c ∈ g.proxied ∧ s = .nonterminal (g.proxyName c)) ∨
      ∃ ending name, (ending, name) ∈ g.chains ∧ s = .nonterminal name := by
  have lifts : ∀ t, t ∈ form → 2 ≤ form.length → s = g.lifted t →
      s ∈ form ∨ ∃ c, c ∈ g.proxied ∧ s = .nonterminal (g.proxyName c) := by
    intro t ht long same
    rcases lifted_eq_or (g := g) t with kept | ⟨c, isLetter, proxy⟩
    · exact .inl (by rw [same, kept]; exact ht)
    · exact .inr ⟨c, h.mem_proxied long (isLetter ▸ ht), by rw [same, proxy]⟩
  match form, h with
  | [], _ => exact .inl hs
  | [t], _ => exact .inl hs
  | [t, u], _ =>
    rw [short_pair, List.mem_cons, List.mem_singleton] at hs
    rcases hs with same | same
    · exact (lifts t (by simp) (by simp) same).imp_right .inl
    · exact (lifts u (by simp) (by simp) same).imp_right .inl
  | t :: u :: v :: rest, h =>
    obtain ⟨name, chain, shortened⟩ := h.exists_chain (by simp)
    rw [shortened, List.mem_cons, List.mem_singleton] at hs
    rcases hs with same | same
    · exact (lifts t (by simp) (by simp) same).imp_right .inl
    · exact .inr (.inr ⟨_, name, chain, same⟩)

/-- Every right-hand side of the shortened grammar is a proxy's letter or a shortened ending. -/
theorem exists_ending_of_mem_binarized {p : Production} (mem : p ∈ g.binarized.productions) :
    (∃ c, c ∈ g.proxied ∧ p.rhs = [.terminal c]) ∨ ∃ form, g.Ending form ∧ p.rhs = g.short form := by
  rcases mem_binarized.1 mem with ⟨c, hc, rfl⟩ | ⟨ending, name, chain, rfl⟩ | ⟨q, hq, rfl⟩
  · exact .inl ⟨c, hc, rfl⟩
  · exact .inr ⟨ending, ending_of_mem_chains chain, rfl⟩
  · exact .inr ⟨q.rhs, ending_rhs hq, rfl⟩

/-- A shortened ending has at most two symbols, and two only if both are nonterminals. -/
theorem Ending.short_shape {form : Form} (h : g.Ending form) :
    (g.short form).length ≤ 2 ∧
      ((g.short form).length = 2 → ∃ m n, g.short form = [.nonterminal m, .nonterminal n]) := by
  match form, h with
  | [], _ => simp
  | [s], _ => simp
  | s :: t :: rest, h =>
    obtain ⟨m, n, pair⟩ := h.exists_pair (by simp)
    rw [pair]
    exact ⟨Nat.le_refl 2, fun _ => ⟨m, n, rfl⟩⟩

/-- **Right-hand sides of at most two symbols** are left, and of two only if both are nonterminals. -/
theorem rhs_shape_of_mem_binarized {p : Production} (mem : p ∈ g.binarized.productions) :
    p.rhs.length ≤ 2 ∧ (p.rhs.length = 2 → ∃ m n, p.rhs = [.nonterminal m, .nonterminal n]) := by
  rcases exists_ending_of_mem_binarized mem with ⟨c, _, isLetter⟩ | ⟨form, ending, shortened⟩
  · simp [isLetter]
  · rw [shortened]
    exact ending.short_shape

/-- **Declarations stay complete** when right-hand sides are shortened. -/
theorem wellFormed_binarized (wf : g.WellFormed) : g.binarized.WellFormed := by
  refine ⟨?_, fun p mem => ?_, fun p mem s hs => ?_⟩
  · exact mem_nonterminals_binarized.2 (.inr (.inr wf.start_mem))
  · rw [mem_nonterminals_binarized]
    rcases mem_binarized.1 mem with ⟨c, hc, rfl⟩ | ⟨ending, name, chain, rfl⟩ | ⟨q, hq, rfl⟩
    · exact .inl ⟨c, hc, rfl⟩
    · exact .inr (.inl ⟨ending, chain⟩)
    · exact .inr (.inr (wf.lhs_mem q hq))
  · have kept : ∀ t, g.Declares t → g.binarized.Declares t := by
      intro t declared
      cases t with
      | terminal c => exact declared
      | nonterminal n => exact mem_nonterminals_binarized.2 (.inr (.inr declared))
    rcases exists_ending_of_mem_binarized mem with ⟨c, hc, isLetter⟩ | ⟨form, ending, shortened⟩
    · rw [isLetter, List.mem_singleton] at hs
      obtain ⟨q, hq, _, occurs⟩ := mem_proxied_iff.1 hc
      exact hs ▸ kept _ (wf.declares q hq _ occurs)
    · rw [shortened] at hs
      rcases ending.of_mem_short hs with inside | ⟨c, hc, rfl⟩ | ⟨_, name, chain, rfl⟩
      · obtain ⟨q, hq, ends⟩ := ending
        exact kept s (wf.declares q hq s (ends.subset inside))
      · exact mem_nonterminals_binarized.2 (.inl ⟨c, hc, rfl⟩)
      · exact mem_nonterminals_binarized.2 (.inr (.inl ⟨_, chain⟩))

/-- **An isolated start stays isolated**: the new nonterminals are no start. -/
theorem startIsolated_binarized (wf : g.WellFormed) (isolated : g.StartIsolated) :
    g.binarized.StartIsolated := by
  intro p mem hs
  rw [start_binarized] at hs
  rcases exists_ending_of_mem_binarized mem with ⟨c, _, isLetter⟩ | ⟨form, ending, shortened⟩
  · rw [isLetter, List.mem_singleton] at hs
    cases hs
  · rw [shortened] at hs
    rcases ending.of_mem_short hs with inside | ⟨c, _, same⟩ | ⟨_, name, chain, same⟩
    · obtain ⟨q, hq, ends⟩ := ending
      exact isolated q hq (ends.subset inside)
    · apply proxyName_not_declared (g := g) c
      rw [← Symbol.nonterminal.inj same]
      exact wf.start_mem
    · apply chainName_not_declared chain
      rw [← Symbol.nonterminal.inj same]
      exact wf.start_mem

/-- **Shortening a grammar that is free of units brings it into normal form.** -/
theorem isNormal_binarized (free : g.UnitFree) : g.binarized.IsNormal := by
  intro p mem
  rw [conforms_iff]
  rcases mem_binarized.1 mem with ⟨c, _, rfl⟩ | ⟨ending, name, chain, rfl⟩ | ⟨q, hq, rfl⟩
  · exact .inr (.inl ⟨c, rfl⟩)
  · exact .inr (.inr ((ending_of_mem_chains chain).exists_pair (two_le_of_mem_chains chain)))
  · obtain ⟨lhs, rhs⟩ := q
    match rhs, hq with
    | [], hq =>
      refine .inl ⟨rfl, free.eq_start_of_empty lhs hq, ?_⟩
      exact startIsolated_binarized free.wellFormed free.isolated
    | [.terminal c], _ => exact .inr (.inl ⟨c, rfl⟩)
    | [.nonterminal n], hq => exact absurd hq (free.no_unit lhs n)
    | s :: t :: rest, hq => exact .inr (.inr ((ending_rhs hq).exists_pair (by simp)))

/-! ## New nonterminals are useful -/

/-- A lifted symbol leads to the nonterminals that it replaces or consists of. -/
theorem reachable_of_lifted {p : Production} (mem : p ∈ g.binarized.productions)
    (reached : p.lhs ∈ g.binarized.reachable) {s : Symbol} (hs : g.lifted s ∈ p.rhs) :
    (∀ n, s = .nonterminal n → n ∈ g.binarized.reachable) ∧
      ∀ c, s = .terminal c → g.proxyName c ∈ g.binarized.reachable := by
  constructor
  · rintro n rfl
    exact mem_reachable_of_mem_rhs mem reached hs
  · rintro c rfl
    exact mem_reachable_of_mem_rhs mem reached hs

/-- `g.Uses form` says that shortening leads to all that a form is made of: its nonterminals, the
proxies of its letters if it is longer, and the chain nonterminals of its remainders. -/
structure Uses (g : Grammar) (form : Form) : Prop where
  /-- The nonterminals of the form are reachable. -/
  names : ∀ n, .nonterminal n ∈ form → n ∈ g.binarized.reachable
  /-- The proxies of its letters are reachable. -/
  proxies : 2 ≤ form.length → ∀ c, .terminal c ∈ form → g.proxyName c ∈ g.binarized.reachable
  /-- The chain nonterminals of its remainders are reachable. -/
  chains : ∀ ending name, (ending, name) ∈ g.chains → ending.length < form.length →
    ending <:+ form → name ∈ g.binarized.reachable

/-- A pair of lifted symbols leads to all that the pair is made of. -/
theorem uses_pair {p : Production} (mem : p ∈ g.binarized.productions)
    (reached : p.lhs ∈ g.binarized.reachable) {s t : Symbol}
    (shortened : p.rhs = [g.lifted s, g.lifted t]) : g.Uses [s, t] := by
  have left := reachable_of_lifted mem reached (s := s) (by simp [shortened])
  have right := reachable_of_lifted mem reached (s := t) (by simp [shortened])
  refine ⟨fun n hn => ?_, fun _ c hc => ?_, fun ending name chain shorter _ => ?_⟩
  · rw [List.mem_cons, List.mem_singleton] at hn
    rcases hn with same | same
    · exact left.1 n same.symm
    · exact right.1 n same.symm
  · rw [List.mem_cons, List.mem_singleton] at hc
    rcases hc with same | same
    · exact left.2 c same.symm
    · exact right.2 c same.symm
  · exact absurd (two_le_of_mem_chains chain) (Nat.not_le_of_lt shorter)

/-- What a chain nonterminal leads to is used by the ending that it shortens. -/
theorem uses_cons {p : Production} (mem : p ∈ g.binarized.productions)
    (reached : p.lhs ∈ g.binarized.reachable) {s : Symbol} {rest : Form} {name : String}
    (long : 2 ≤ rest.length) (chain : (rest, name) ∈ g.chains)
    (shortened : p.rhs = [g.lifted s, .nonterminal name]) (tail : g.Uses rest) :
    g.Uses (s :: rest) := by
  have head := reachable_of_lifted mem reached (s := s) (by simp [shortened])
  refine ⟨fun n hn => ?_, fun _ c hc => ?_, fun ending other chain' shorter ends => ?_⟩
  · rcases List.mem_cons.1 hn with same | hn
    · exact head.1 n same.symm
    · exact tail.names n hn
  · rcases List.mem_cons.1 hc with same | hc
    · exact head.2 c same.symm
    · exact tail.proxies long c hc
  · rcases List.suffix_cons_iff.1 ends with rfl | ends
    · exact absurd shorter (Nat.lt_irrefl _)
    · rcases Nat.lt_or_ge ending.length rest.length with shorter | longer
      · exact tail.chains ending other chain' shorter ends
      -- the remainder is the whole rest, and its only chain nonterminal has just been met
      · rw [ends.eq_of_length_le longer] at chain'
        rw [chainName_eq_of_mem_chains chain' chain]
        exact mem_reachable_of_mem_rhs mem reached (by simp [shortened])

/-- **From a reachable left-hand side everything is met** that shortening its right-hand side brings
in. -/
theorem Ending.uses {form : Form} (h : g.Ending form) {name : String}
    (mem : ⟨name, g.short form⟩ ∈ g.binarized.productions)
    (reached : name ∈ g.binarized.reachable) : g.Uses form := by
  induction form generalizing name with
  | nil => exact ⟨by simp, by simp, by simp⟩
  | cons s rest ih =>
    match rest, h with
    | [], _ =>
      refine ⟨fun n hn => mem_reachable_of_mem_rhs mem reached hn, by simp, ?_⟩
      intro ending other chain shorter _
      have long := two_le_of_mem_chains chain
      rw [List.length_singleton] at shorter
      omega
    | [t], _ => exact uses_pair mem reached rfl
    | t :: u :: others, h =>
      obtain ⟨next, chain, shortened⟩ := h.exists_chain (by simp)
      have met : next ∈ g.binarized.reachable :=
        mem_reachable_of_mem_rhs mem reached (by simp [shortened])
      have tail : g.Uses (t :: u :: others) := ih h.tail (mem_binarized_chain chain) met
      exact uses_cons mem reached (by simp) chain shortened tail

/-- Reachable nonterminals stay reachable. -/
theorem mem_reachable_binarized {n : String} (h : n ∈ g.reachable) :
    n ∈ g.binarized.reachable := by
  have start : g.start ∈ g.binarized.reachable := start_mem_reachable (g := g.binarized)
  refine reachable_induction (g := g) (· ∈ g.binarized.reachable) start ?_ h
  intro p mem _ left n hn
  exact ((ending_rhs mem).uses (mem_binarized_kept mem) left).names n hn

/-- If all declared nonterminals are reachable, so are the new ones. -/
theorem reachable_binarized (wf : g.WellFormed)
    (all : ∀ n, n ∈ g.nonterminals → n ∈ g.reachable) {n : String}
    (h : n ∈ g.binarized.nonterminals) : n ∈ g.binarized.reachable := by
  have used : ∀ p, p ∈ g.productions → g.Uses p.rhs := fun p mem =>
    (ending_rhs mem).uses (mem_binarized_kept mem)
      (mem_reachable_binarized (all p.lhs (wf.lhs_mem p mem)))
  rcases mem_nonterminals_binarized.1 h with ⟨c, hc, rfl⟩ | ⟨ending, chain⟩ | declared
  · obtain ⟨p, mem, long, occurs⟩ := mem_proxied_iff.1 hc
    exact (used p mem).proxies long c occurs
  · obtain ⟨p, mem, _, shorter, ends⟩ :=
      mem_remainders_iff.1 (mem_remainders_of_mem_chains chain)
    exact (used p mem).chains ending n chain shorter ends
  · exact mem_reachable_binarized (all n declared)

/-- If all declared nonterminals are productive, so are the new ones. -/
theorem productive_binarized (wf : g.WellFormed)
    (all : ∀ n, n ∈ g.nonterminals → n ∈ g.productive) {n : String}
    (h : n ∈ g.binarized.nonterminals) : n ∈ g.binarized.productive := by
  rw [mem_productive_iff_yields]
  rcases mem_nonterminals_binarized.1 h with ⟨c, hc, rfl⟩ | ⟨ending, chain⟩ | declared
  · exact ⟨[c], yields_nonterminal_iff.2 ⟨_, mem_binarized_proxy hc, .letter .nil⟩⟩
  · have ends := ending_of_mem_chains chain
    have names : ∀ m, .nonterminal m ∈ ending → ∃ word, g.Yields [.nonterminal m] word :=
      fun m hm => mem_productive_iff_yields.1 (all m (ends.declared wf hm))
    obtain ⟨word, d⟩ := exists_yields_iff.2 names
    have d := ends.yields_short d.binarized
    exact ⟨word, yields_nonterminal_iff.2 ⟨_, mem_binarized_chain chain, d⟩⟩
  · obtain ⟨word, d⟩ := mem_productive_iff_yields.1 (all n declared)
    exact ⟨word, d.binarized⟩

/-- Without productions nothing needs to be shortened. -/
theorem productions_binarized_of_empty (none : g.productions = ∅) : g.binarized.productions = ∅ := by
  ext p
  refine iff_of_false (fun mem => ?_) (SortedSet.not_mem_empty p)
  have noRule : ∀ q, q ∉ g.productions := fun q mem => SortedSet.not_mem_empty q (none ▸ mem)
  rcases mem_binarized.1 mem with ⟨c, hc, _⟩ | ⟨ending, name, chain, _⟩ | ⟨q, hq, _⟩
  · obtain ⟨q, hq, _⟩ := mem_proxied_iff.1 hc
    exact noRule q hq
  · obtain ⟨q, hq, _⟩ := ending_of_mem_chains chain
    exact noRule q hq
  · exact noRule q hq

/-- Without productions no nonterminal is new. -/
theorem nonterminals_binarized_of_empty (none : g.productions = ∅) :
    g.binarized.nonterminals = g.nonterminals := by
  have noRule : ∀ q, q ∉ g.productions := fun q mem => SortedSet.not_mem_empty q (none ▸ mem)
  ext n
  rw [mem_nonterminals_binarized]
  refine ⟨?_, fun declared => .inr (.inr declared)⟩
  rintro (⟨c, hc, _⟩ | ⟨ending, chain⟩ | declared)
  · obtain ⟨q, hq, _⟩ := mem_proxied_iff.1 hc
    exact absurd hq (noRule q)
  · obtain ⟨q, hq, _⟩ := ending_of_mem_chains chain
    exact absurd hq (noRule q)
  · exact declared

/-- **Trimmed grammars stay trimmed** when right-hand sides are shortened. -/
theorem Trimmed.binarized (wf : g.WellFormed) (trimmed : g.Trimmed) : g.binarized.Trimmed := by
  rcases trimmed with useful | ⟨none, only⟩
  · refine .inl fun n h => ?_
    rw [← mem_reachable_iff, ← mem_productive_iff]
    constructor
    · exact reachable_binarized wf (fun m hm => mem_reachable_iff.2 (useful m hm).1) h
    · exact productive_binarized wf (fun m hm => mem_productive_iff.2 (useful m hm).2) h
  · refine .inr ⟨productions_binarized_of_empty none, ?_⟩
    rw [nonterminals_binarized_of_empty none]
    exact only

end FormalLanguages.Grammar
