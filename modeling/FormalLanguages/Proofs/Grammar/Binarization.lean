import FormalLanguages.Grammar.Binary
import FormalLanguages.Proofs.Grammar.Yield
import FormalLanguages.Proofs.Listing
import FormalLanguages.Proofs.Naming

/-! # Shortening right-hand sides

`Grammar.binarized` works on the endings of right-hand sides: every proper ending of two or more
symbols has a chain nonterminal, and every letter of a longer right-hand side has a proxy. New names
are apart from the declared ones and from each other, so a new name tells what it was made for. Every
ending is shortened to at most two symbols, and these are the right-hand sides of the result
(`mem_binarized`). -/

namespace FormalLanguages

/-- Erasing repetitions leaves none. -/
theorem nodup_eraseDups {α : Type} [BEq α] [LawfulBEq α] (l : List α) : l.eraseDups.Nodup :=
  pairwise_eraseDups (fun _ _ _ other => other) l (List.pairwise_of_forall fun _ _ => trivial)

namespace Form

/-- The remainders of a form are its proper endings of at least two symbols. -/
theorem mem_remainders_iff {form ending : Form} :
    ending ∈ remainders form ↔
      2 ≤ ending.length ∧ ending.length < form.length ∧ ending <:+ form := by
  induction form with
  | nil => simp [remainders]
  | cons s rest ih =>
    have proper : ending.length < (s :: rest).length ∧ ending <:+ s :: rest ↔ ending <:+ rest := by
      rw [List.suffix_cons_iff]
      constructor
      · rintro ⟨shorter, rfl | inside⟩
        · exact absurd shorter (Nat.lt_irrefl _)
        · exact inside
      · intro inside
        exact ⟨Nat.lt_succ_of_le inside.length_le, .inr inside⟩
    rw [proper, remainders]
    by_cases long : 2 ≤ rest.length
    · rw [if_pos long, List.mem_cons, ih]
      constructor
      · rintro (rfl | ⟨atLeast, _, inside⟩)
        · exact ⟨long, List.suffix_refl _⟩
        · exact ⟨atLeast, inside⟩
      · rintro ⟨atLeast, inside⟩
        rcases Nat.lt_or_ge ending.length rest.length with shorter | longer
        · exact .inr ⟨atLeast, shorter, inside⟩
        · exact .inl (inside.eq_of_length_le longer)
    · rw [if_neg long]
      refine iff_of_false List.not_mem_nil fun ⟨atLeast, inside⟩ => long ?_
      exact Nat.le_trans atLeast inside.length_le

end Form

namespace Grammar

variable {g : Grammar}

/-! ## Proxies and chain nonterminals -/

/-- The letters of right-hand sides of two or more symbols have proxies. -/
theorem mem_proxied_iff {c : Char} :
    c ∈ g.proxied ↔ ∃ p, p ∈ g.productions ∧ 2 ≤ p.rhs.length ∧ .terminal c ∈ p.rhs := by
  rw [proxied, SortedSet.mem_bind]
  refine exists_congr fun p => and_congr_right fun _ => ?_
  by_cases long : 2 ≤ p.rhs.length
  · rw [if_pos long, Form.mem_letters, and_iff_right long]
  · rw [if_neg long]
    exact iff_of_false List.not_mem_nil fun h => long h.1

/-- The proper endings, of two or more symbols, of right-hand sides have chain nonterminals. -/
theorem mem_remainders_iff {ending : Form} :
    ending ∈ g.remainders ↔ ∃ p, p ∈ g.productions ∧
      2 ≤ ending.length ∧ ending.length < p.rhs.length ∧ ending <:+ p.rhs := by
  rw [remainders, List.mem_eraseDups, List.mem_flatMap]
  exact exists_congr fun p => and_congr_right fun _ => Form.mem_remainders_iff

theorem proxyName_not_declared (c : Char) : g.proxyName c ∉ g.nonterminals :=
  freshPrimed_not_taken _ _

theorem proxyName_injective {c d : Char} (h : g.proxyName c = g.proxyName d) : c = d :=
  primed_letter_injective h

/-- Names are given out to remainders. -/
theorem map_fst_chains : g.chains.map (·.1) = g.remainders := NameSupply.map_fst_assign _ _

/-- Chain nonterminals are given new names. -/
theorem givenOut_chains : GivenOut g.nonterminals g.chains :=
  NameSupply.givenOut_assign ⟨g.nonterminals, 0⟩ g.remainders

theorem chainName_not_declared {ending : Form} {name : String} (h : (ending, name) ∈ g.chains) :
    name ∉ g.nonterminals := givenOut_chains.not_mem_taken h

/-- A chain nonterminal stands for one remainder. -/
theorem eq_of_mem_chains {ending other : Form} {name : String} (h : (ending, name) ∈ g.chains)
    (h' : (other, name) ∈ g.chains) : ending = other := givenOut_chains.eq_of_mem h h'

/-- A remainder has one chain nonterminal. -/
theorem chainName_eq_of_mem_chains {ending : Form} {name other : String}
    (h : (ending, name) ∈ g.chains) (h' : (ending, other) ∈ g.chains) : name = other := by
  have once : (g.chains.map (·.1)).Nodup := by
    rw [map_fst_chains]
    exact nodup_eraseDups _
  exact name_eq_of_nodup once h h'

/-- No chain nonterminal is named like a proxy. -/
theorem chainName_ne_proxyName {ending : Form} {name : String} (h : (ending, name) ∈ g.chains)
    (c : Char) : g.proxyName c ≠ name := by
  obtain ⟨k, numbered⟩ := NameSupply.eq_numbered_of_mem_assign h
  intro same
  exact primed_letter_ne_numbered (same.trans numbered)

/-- Chain nonterminals belong to remainders. -/
theorem mem_remainders_of_mem_chains {ending : Form} {name : String}
    (h : (ending, name) ∈ g.chains) : ending ∈ g.remainders := by
  rw [← map_fst_chains]
  exact List.mem_map.2 ⟨_, h, rfl⟩

/-- The chain nonterminal of a remainder is found. -/
theorem exists_lookup_chains {ending : Form} (h : ending ∈ g.remainders) :
    ∃ name, g.chains.lookup ending = some name ∧ (ending, name) ∈ g.chains := by
  rw [← map_fst_chains] at h
  exact exists_lookup h

/-! ## Shortened right-hand sides -/

/-- The shortened form of a right-hand side. -/
def short (g : Grammar) (form : Form) : Form := g.shortened g.chains form

/-- A form is an **ending** when a right-hand side ends with it. -/
def Ending (g : Grammar) (form : Form) : Prop :=
  ∃ p, p ∈ g.productions ∧ form <:+ p.rhs

theorem ending_rhs {p : Production} (mem : p ∈ g.productions) : g.Ending p.rhs :=
  ⟨p, mem, List.suffix_refl _⟩

theorem Ending.tail {s : Symbol} {rest : Form} (h : g.Ending (s :: rest)) : g.Ending rest := by
  obtain ⟨p, mem, ends⟩ := h
  exact ⟨p, mem, (List.suffix_cons s rest).trans ends⟩

theorem ending_of_mem_chains {ending : Form} {name : String} (h : (ending, name) ∈ g.chains) :
    g.Ending ending := by
  obtain ⟨p, mem, _, _, ends⟩ := mem_remainders_iff.1 (mem_remainders_of_mem_chains h)
  exact ⟨p, mem, ends⟩

theorem two_le_of_mem_chains {ending : Form} {name : String} (h : (ending, name) ∈ g.chains) :
    2 ≤ ending.length := by
  obtain ⟨p, _, long, _⟩ := mem_remainders_iff.1 (mem_remainders_of_mem_chains h)
  exact long

/-- The letters of an ending of two or more symbols have proxies. -/
theorem Ending.mem_proxied {form : Form} (h : g.Ending form) (long : 2 ≤ form.length) {c : Char}
    (hc : .terminal c ∈ form) : c ∈ g.proxied := by
  obtain ⟨p, mem, ends⟩ := h
  exact mem_proxied_iff.2 ⟨p, mem, Nat.le_trans long ends.length_le, ends.subset hc⟩

/-- What follows the first symbol of a longer ending has a chain nonterminal. -/
theorem Ending.exists_chain {s : Symbol} {rest : Form} (h : g.Ending (s :: rest))
    (long : 2 ≤ rest.length) :
    ∃ name, (rest, name) ∈ g.chains ∧ g.short (s :: rest) = [g.lifted s, .nonterminal name] := by
  obtain ⟨p, mem, ends⟩ := h
  have remains : rest ∈ g.remainders :=
    mem_remainders_iff.2 ⟨p, mem, long, ends.length_le, (List.suffix_cons s rest).trans ends⟩
  obtain ⟨name, found, mem⟩ := exists_lookup_chains remains
  refine ⟨name, mem, ?_⟩
  -- a form of three or more symbols is shortened by its chain nonterminal
  match rest, long with
  | _ :: _ :: _, _ => rw [short, shortened, found] <;> simp

@[simp] theorem short_nil : g.short [] = [] := rfl

@[simp] theorem short_singleton (s : Symbol) : g.short [s] = [s] := rfl

@[simp] theorem short_pair (s t : Symbol) : g.short [s, t] = [g.lifted s, g.lifted t] := rfl

/-- Lifted symbols are nonterminals. -/
theorem exists_lifted_eq (s : Symbol) : ∃ n, g.lifted s = .nonterminal n := by
  cases s with
  | terminal c => exact ⟨g.proxyName c, rfl⟩
  | nonterminal n => exact ⟨n, rfl⟩

/-- Longer endings are shortened to **two nonterminals**. -/
theorem Ending.exists_pair {form : Form} (h : g.Ending form) (long : 2 ≤ form.length) :
    ∃ m n, g.short form = [.nonterminal m, .nonterminal n] := by
  match form, long with
  | [s, t], _ =>
    obtain ⟨m, hm⟩ := g.exists_lifted_eq s
    obtain ⟨n, hn⟩ := g.exists_lifted_eq t
    exact ⟨m, n, by rw [short_pair, hm, hn]⟩
  | s :: t :: u :: rest, _ =>
    obtain ⟨m, hm⟩ := g.exists_lifted_eq s
    obtain ⟨n, _, shortened⟩ := h.exists_chain (by simp)
    exact ⟨m, n, by rw [shortened, hm]⟩

/-! ## The shortened grammar -/

@[simp] theorem start_binarized : g.binarized.start = g.start := rfl

@[simp] theorem terminals_binarized : g.binarized.terminals = g.terminals := rfl

/-- The productions of proxies, of chain nonterminals, and of the nonterminals there were. -/
theorem mem_binarized {p : Production} :
    p ∈ g.binarized.productions ↔
      (∃ c, c ∈ g.proxied ∧ p = ⟨g.proxyName c, [.terminal c]⟩) ∨
        (∃ ending name, (ending, name) ∈ g.chains ∧ p = ⟨name, g.short ending⟩) ∨
          ∃ q, q ∈ g.productions ∧ p = ⟨q.lhs, g.short q.rhs⟩ := by
  simp only [binarized, SortedSet.mem_union, SortedSet.mem_image, SortedSet.mem_ofList,
    List.mem_map, Prod.exists, short, eq_comm]

/-- The nonterminals: proxies, chain nonterminals, and those there were. -/
theorem mem_nonterminals_binarized {n : String} :
    n ∈ g.binarized.nonterminals ↔
      (∃ c, c ∈ g.proxied ∧ n = g.proxyName c) ∨ (∃ ending, (ending, n) ∈ g.chains) ∨
        n ∈ g.nonterminals := by
  simp only [binarized, SortedSet.mem_union, SortedSet.mem_image, SortedSet.mem_ofList,
    List.mem_map, Prod.exists, exists_eq_right]
  rw [exists_congr fun c => and_congr_right fun _ => eq_comm]

theorem mem_binarized_proxy {c : Char} (h : c ∈ g.proxied) :
    ⟨g.proxyName c, [.terminal c]⟩ ∈ g.binarized.productions :=
  mem_binarized.2 (.inl ⟨c, h, rfl⟩)

theorem mem_binarized_chain {ending : Form} {name : String} (h : (ending, name) ∈ g.chains) :
    ⟨name, g.short ending⟩ ∈ g.binarized.productions :=
  mem_binarized.2 (.inr (.inl ⟨ending, name, h, rfl⟩))

theorem mem_binarized_kept {p : Production} (h : p ∈ g.productions) :
    ⟨p.lhs, g.short p.rhs⟩ ∈ g.binarized.productions :=
  mem_binarized.2 (.inr (.inr ⟨p, h, rfl⟩))

end Grammar

end FormalLanguages
