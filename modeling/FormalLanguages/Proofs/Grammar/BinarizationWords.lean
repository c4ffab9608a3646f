import FormalLanguages.Proofs.Grammar.Binarization

/-! # Words of the shortened grammar

Shortening loses no word: a longer right-hand side still yields its words through chain nonterminals
and proxies (`Yields.binarized`). It adds none either: replacing every new name by what it stands
for turns derivations of the shortened grammar into derivations of the original one
(`yields_of_binarized`). -/

namespace FormalLanguages.Grammar

variable {g : Grammar}

/-! ## No word is lost -/

/-- A lifted symbol of an ending yields what the symbol yields. -/
theorem Ending.yields_lifted {form : Form} (h : g.Ending form) (long : 2 ≤ form.length)
    {s : Symbol} (hs : s ∈ form) {word : List Char} (d : g.binarized.Yields [s] word) :
    g.binarized.Yields [g.lifted s] word := by
  cases s with
  | terminal c =>
    have proxied : c ∈ g.proxied := h.mem_proxied long hs
    exact yields_nonterminal_iff.2 ⟨_, mem_binarized_proxy proxied, d⟩
  | nonterminal n => exact d

/-- A shortened ending yields what the ending yields. -/
theorem Ending.yields_short {form : Form} (h : g.Ending form) {word : List Char}
    (d : g.binarized.Yields form word) : g.binarized.Yields (g.short form) word := by
  induction form generalizing word with
  | nil => exact d
  | cons s rest ih =>
    obtain ⟨first, second, rfl, head, tail⟩ := yields_cons_iff.1 d
    match rest, tail with
    | [], _ => exact d
    | [t], tail =>
      have left := h.yields_lifted (by simp) (by simp) head
      have right := h.yields_lifted (by simp) (by simp) tail
      rw [short_pair]
      exact left.append right
    | t :: u :: others, tail =>
      -- the rest is yielded by its chain nonterminal
      obtain ⟨name, chain, shortened⟩ := h.exists_chain (by simp)
      have left := h.yields_lifted (by simp) (by simp) head
      have right : g.binarized.Yields [.nonterminal name] second :=
        yields_nonterminal_iff.2 ⟨_, mem_binarized_chain chain, ih h.tail tail⟩
      rw [shortened]
      exact left.append right

/-- **Shortening loses no word.** -/
theorem Yields.binarized {form : Form} {word : List Char} (d : g.Yields form word) :
    g.binarized.Yields form word := by
  refine d.simulate fun p mem word hw => ?_
  exact yields_nonterminal_iff.2 ⟨_, mem_binarized_kept mem, (ending_rhs mem).yields_short hw⟩

/-! ## New names are read back -/

/-- **What a nonterminal stands for**: a chain nonterminal for its remainder, a proxy for its letter,
and any other nonterminal for itself. -/
def expansion (g : Grammar) (name : String) : Form :=
  match g.chains.find? (·.2 == name) with
  | some chain => chain.1
  | none =>
    match g.proxied.toList.find? (g.proxyName · == name) with
    | some c => [.terminal c]
    | none => [.nonterminal name]

/-- A chain nonterminal stands for its remainder. -/
theorem expansion_chain {ending : Form} {name : String} (h : (ending, name) ∈ g.chains) :
    g.expansion name = ending := by
  rw [expansion]
  cases found : g.chains.find? (·.2 == name) with
  | none => exact absurd (beq_self_eq_true name) (List.find?_eq_none.1 found _ h)
  | some chain =>
    have same := List.find?_some found
    have same : chain.2 = name := eq_of_beq same
    have mem : (chain.1, name) ∈ g.chains := same ▸ List.mem_of_find?_eq_some found
    exact eq_of_mem_chains mem h

/-- A name that no chain nonterminal has stands for a letter or for itself. -/
theorem expansion_of_no_chain {name : String}
    (h : ∀ ending, (ending, name) ∉ g.chains) :
    g.expansion name =
      match g.proxied.toList.find? (g.proxyName · == name) with
      | some c => [.terminal c]
      | none => [.nonterminal name] := by
  have none : g.chains.find? (·.2 == name) = none := by
    refine List.find?_eq_none.2 fun chain mem same => h chain.1 ?_
    rw [← eq_of_beq same]
    exact mem
  rw [expansion, none]

/-- A proxy stands for its letter. -/
theorem expansion_proxy {c : Char} (h : c ∈ g.proxied) :
    g.expansion (g.proxyName c) = [.terminal c] := by
  rw [expansion_of_no_chain fun ending mem => chainName_ne_proxyName mem c rfl]
  cases found : g.proxied.toList.find? (g.proxyName · == g.proxyName c) with
  | none => exact absurd (beq_self_eq_true _) (List.find?_eq_none.1 found c h)
  | some d =>
    have same := List.find?_some found
    rw [proxyName_injective (eq_of_beq same)]

/-- A declared nonterminal stands for itself. -/
theorem expansion_declared {name : String} (h : name ∈ g.nonterminals) :
    g.expansion name = [.nonterminal name] := by
  rw [expansion_of_no_chain fun ending mem => chainName_not_declared mem h]
  have none : g.proxied.toList.find? (g.proxyName · == name) = none := by
    refine List.find?_eq_none.2 fun c _ same => ?_
    rw [← eq_of_beq same] at h
    exact proxyName_not_declared c h
  rw [none]

/-- Forms of declared nonterminals stand for themselves. -/
theorem translate_expansion_declared {form : Form}
    (declared : ∀ n, .nonterminal n ∈ form → n ∈ g.nonterminals) :
    Form.translate g.expansion form = form :=
  Form.translate_eq_self fun n hn => expansion_declared (declared n hn)

/-- The nonterminals of endings are declared. -/
theorem Ending.declared {form : Form} (wf : g.WellFormed) (h : g.Ending form) {n : String}
    (hn : .nonterminal n ∈ form) : n ∈ g.nonterminals := by
  obtain ⟨p, mem, ends⟩ := h
  exact wf.declares p mem _ (ends.subset hn)

/-- A lifted symbol of an ending stands for the symbol. -/
theorem Ending.translate_lifted {form : Form} (wf : g.WellFormed) (h : g.Ending form)
    (long : 2 ≤ form.length) {s : Symbol} (hs : s ∈ form) (rest : Form) :
    Form.translate g.expansion (g.lifted s :: rest) = s :: Form.translate g.expansion rest := by
  cases s with
  | terminal c =>
    have proxied : c ∈ g.proxied := h.mem_proxied long hs
    rw [lifted, Form.translate_nonterminal, expansion_proxy proxied, List.singleton_append]
  | nonterminal n =>
    have declared : n ∈ g.nonterminals := h.declared wf hs
    rw [lifted, Form.translate_nonterminal, expansion_declared declared, List.singleton_append]

/-- A shortened ending **stands for** the ending. -/
theorem Ending.translate_short {form : Form} (wf : g.WellFormed) (h : g.Ending form) :
    Form.translate g.expansion (g.short form) = form := by
  match form with
  | [] => rfl
  | [s] =>
    rw [short_singleton]
    exact translate_expansion_declared fun n hn => h.declared wf hn
  | [s, t] =>
    have left := h.translate_lifted wf (by simp) (s := s) (by simp)
    have right := h.translate_lifted wf (by simp) (s := t) (by simp)
    rw [short_pair, left, right, Form.translate_nil]
  | s :: t :: u :: rest =>
    obtain ⟨name, chain, shortened⟩ := h.exists_chain (by simp)
    have left := h.translate_lifted wf (by simp) (s := s) (by simp)
    rw [shortened, left, Form.translate_nonterminal, expansion_chain chain, Form.translate_nil,
      List.append_nil]

/-- **Shortening adds no word**: what a form yields is yielded by what the form stands for. -/
theorem yields_of_binarized (wf : g.WellFormed) {form : Form} {word : List Char}
    (d : g.binarized.Yields form word) : g.Yields (Form.translate g.expansion form) word := by
  refine d.translate fun p mem word hw => ?_
  rcases mem_binarized.1 mem with ⟨c, hc, rfl⟩ | ⟨ending, name, chain, rfl⟩ | ⟨q, hq, rfl⟩
  · rw [expansion_proxy hc]
    exact hw
  · rw [(ending_of_mem_chains chain).translate_short wf] at hw
    rw [expansion_chain chain]
    exact hw
  · rw [(ending_rhs hq).translate_short wf] at hw
    rw [expansion_declared (wf.lhs_mem q hq)]
    exact yields_nonterminal_iff.2 ⟨q.rhs, hq, hw⟩

/-- **Forms of declared nonterminals yield the same words** after shortening. -/
theorem yields_binarized_iff (wf : g.WellFormed) {form : Form}
    (declared : ∀ n, .nonterminal n ∈ form → n ∈ g.nonterminals) {word : List Char} :
    g.binarized.Yields form word ↔ g.Yields form word := by
  refine ⟨fun d => ?_, Yields.binarized⟩
  have d := yields_of_binarized wf d
  rwa [translate_expansion_declared declared] at d

/-- **Shortening keeps the language.** -/
theorem language_binarized (wf : g.WellFormed) {word : List Char} :
    g.binarized.Language word ↔ g.Language word := by
  rw [language_iff, language_iff]
  exact yields_binarized_iff wf (Form.forall_names_singleton wf.start_mem)

end FormalLanguages.Grammar
