import FormalLanguages.Proofs.Grammar.BinarizationWords

/-! # Sharing of new nonterminals

Shortening right-hand sides adds one proxy for each letter and one chain nonterminal for each remainder,
wherever and however often they occur (`binarized_shares`). Their names are new and different from
each other, so their productions do not mix: a new nonterminal has a single alternative. Different
right-hand sides are shortened to different forms (`Ending.short_injective`), so the nonterminals there
were have as many alternatives as before. -/

namespace FormalLanguages.Grammar

variable {g : Grammar} {name : String} {ending form other : Form} {c : Char}

/-! ## What needs a new nonterminal -/

/-- A letter **needs a proxy** when it occurs in a right-hand side of two or more symbols. -/
def NeedsProxy (g : Grammar) (c : Char) : Prop :=
  ∃ p, p ∈ g.productions ∧ 2 ≤ p.rhs.length ∧ .terminal c ∈ p.rhs

/-- A form **needs a chain nonterminal** when it has two or more symbols and is a proper ending of a
right-hand side of three or more. -/
def NeedsChain (g : Grammar) (ending : Form) : Prop :=
  ∃ p, p ∈ g.productions ∧ 3 ≤ p.rhs.length ∧ 2 ≤ ending.length ∧ ending <:+ p.rhs ∧ ending ≠ p.rhs

/-- The name of the chain nonterminal of a remainder. -/
def chainName (g : Grammar) (ending : Form) : String := (g.chains.lookup ending).getD ""

/-- The remainders are what needs a chain nonterminal. -/
theorem mem_remainders_iff_needsChain : ending ∈ g.remainders ↔ g.NeedsChain ending := by
  rw [mem_remainders_iff]
  refine exists_congr fun p => and_congr_right fun _ => ?_
  constructor
  · rintro ⟨atLeast, shorter, ends⟩
    exact ⟨by omega, atLeast, ends, fun same => absurd (same ▸ shorter) (Nat.lt_irrefl _)⟩
  · rintro ⟨_, atLeast, ends, proper⟩
    have shorter : ending.length ≠ p.rhs.length := fun same => proper (ends.eq_of_length same)
    exact ⟨atLeast, Nat.lt_of_le_of_ne ends.length_le shorter, ends⟩

/-- The table of chain nonterminals gives their names to those who need one. -/
theorem mem_chains_iff :
    (ending, name) ∈ g.chains ↔ g.NeedsChain ending ∧ name = g.chainName ending := by
  have named : ending ∈ g.remainders → (ending, g.chainName ending) ∈ g.chains := fun remains => by
    obtain ⟨n, found, mem⟩ := exists_lookup_chains remains
    rwa [chainName, found, Option.getD_some]
  rw [← mem_remainders_iff_needsChain]
  constructor
  · intro mem
    have remains := mem_remainders_of_mem_chains mem
    exact ⟨remains, chainName_eq_of_mem_chains mem (named remains)⟩
  · rintro ⟨remains, rfl⟩
    exact named remains

theorem NeedsChain.mem_chains (needs : g.NeedsChain ending) :
    (ending, g.chainName ending) ∈ g.chains := mem_chains_iff.2 ⟨needs, rfl⟩

/-! ## Alternatives in the shortened grammar -/

/-- **Different endings are shortened to different forms**: a shortened ending tells what it stands
for. -/
theorem Ending.short_injective (wf : g.WellFormed) (h : g.Ending form) (h' : g.Ending other)
    (same : g.short form = g.short other) : form = other := by
  rw [← h.translate_short wf, same, h'.translate_short wf]

/-- A declared nonterminal has the shortened forms of its alternatives. -/
theorem alternatives_binarized (declared : name ∈ g.nonterminals) :
    g.binarized.alternatives name = (g.alternatives name).image g.short := by
  ext rhs
  simp only [mem_alternatives, SortedSet.mem_image, mem_binarized, Production.mk.injEq]
  constructor
  · rintro (⟨c, _, rfl, _⟩ | ⟨ending, n, chain, rfl, _⟩ | ⟨q, mem, rfl, rfl⟩)
    · exact absurd declared (proxyName_not_declared c)
    · exact absurd declared (chainName_not_declared chain)
    · exact ⟨q.rhs, mem, rfl⟩
  · rintro ⟨form, mem, rfl⟩
    exact .inr (.inr ⟨_, mem, rfl, rfl⟩)

/-- A proxy has only its letter. -/
theorem alternatives_binarized_proxy (wf : g.WellFormed) (needs : g.NeedsProxy c) :
    g.binarized.alternatives (g.proxyName c) = {[.terminal c]} := by
  ext rhs
  simp only [mem_alternatives, SortedSet.mem_singleton, mem_binarized, Production.mk.injEq]
  constructor
  · rintro (⟨d, _, same, rfl⟩ | ⟨ending, n, chain, same, _⟩ | ⟨q, mem, same, _⟩)
    · rw [proxyName_injective same]
    · exact absurd same (chainName_ne_proxyName chain c)
    · exact absurd (same ▸ wf.lhs_mem q mem) (proxyName_not_declared c)
  · rintro rfl
    exact .inl ⟨c, mem_proxied_iff.2 needs, rfl, rfl⟩

/-- A chain nonterminal has only the shortened form of its remainder. -/
theorem alternatives_binarized_chain (wf : g.WellFormed) (chain : (ending, name) ∈ g.chains) :
    g.binarized.alternatives name = {g.short ending} := by
  ext rhs
  simp only [mem_alternatives, SortedSet.mem_singleton, mem_binarized, Production.mk.injEq]
  constructor
  · rintro (⟨d, _, same, _⟩ | ⟨another, n, chain', rfl, rfl⟩ | ⟨q, mem, same, _⟩)
    · exact absurd same.symm (chainName_ne_proxyName chain d)
    · rw [eq_of_mem_chains chain chain']
    · exact absurd (same ▸ wf.lhs_mem q mem) (chainName_not_declared chain)
  · rintro rfl
    exact .inr (.inl ⟨ending, name, chain, rfl, rfl⟩)

/-- A declared nonterminal has **as many alternatives** as before. -/
theorem size_alternatives_binarized (wf : g.WellFormed) (declared : name ∈ g.nonterminals) :
    (g.binarized.alternatives name).size = (g.alternatives name).size := by
  rw [alternatives_binarized declared]
  refine SortedSet.size_image fun form mem other mem' same => ?_
  have ends : g.Ending form := ending_rhs (mem_alternatives.1 mem)
  have ends' : g.Ending other := ending_rhs (mem_alternatives.1 mem')
  exact ends.short_injective wf ends' same

/-! ## One new nonterminal for each need -/

/-- `g.Shares h proxy chain` says that `h` **adds as few nonterminals as possible** to those of `g`: for
each letter that needs it one `proxy`, and for each form that needs it one `chain` nonterminal. -/
structure Shares (g h : Grammar) (proxy : Char → String) (chain : Form → String) : Prop where
  /-- The nonterminals are those there were, the proxies and the chain nonterminals. -/
  mem_nonterminals : ∀ n, n ∈ h.nonterminals ↔ n ∈ g.nonterminals ∨
    (∃ c, g.NeedsProxy c ∧ n = proxy c) ∨ ∃ ending, g.NeedsChain ending ∧ n = chain ending
  /-- Proxies are new. -/
  proxy_new : ∀ c, g.NeedsProxy c → proxy c ∉ g.nonterminals
  /-- Chain nonterminals are new. -/
  chain_new : ∀ ending, g.NeedsChain ending → chain ending ∉ g.nonterminals
  /-- Different letters have different proxies. -/
  proxy_injective : ∀ c d, g.NeedsProxy c → g.NeedsProxy d → proxy c = proxy d → c = d
  /-- Different forms have different chain nonterminals. -/
  chain_injective : ∀ form other, g.NeedsChain form → g.NeedsChain other →
    chain form = chain other → form = other
  /-- No proxy is a chain nonterminal. -/
  proxy_ne_chain : ∀ c ending, g.NeedsProxy c → g.NeedsChain ending → proxy c ≠ chain ending
  /-- A proxy has its letter as its only alternative. -/
  alternatives_proxy : ∀ c, g.NeedsProxy c → h.alternatives (proxy c) = {[.terminal c]}
  /-- A chain nonterminal has one alternative, which consists of two nonterminals. -/
  alternatives_chain : ∀ ending, g.NeedsChain ending →
    ∃ m n, h.alternatives (chain ending) = {[.nonterminal m, .nonterminal n]}
  /-- The nonterminals there were have as many alternatives as before. -/
  size_alternatives : ∀ n, n ∈ g.nonterminals → (h.alternatives n).size = (g.alternatives n).size

/-- **Shortening shares all it can**: to a well-formed grammar it adds one proxy for each letter of longer
right-hand sides and one chain nonterminal for each of their remainders, all with different new names
and a single alternative, and it changes no number of alternatives. -/
theorem binarized_shares (wf : g.WellFormed) : g.Shares g.binarized g.proxyName g.chainName where
  mem_nonterminals n := by
    simp only [mem_nonterminals_binarized, mem_chains_iff, mem_proxied_iff, NeedsProxy]
    rw [← or_assoc, or_comm]
  proxy_new c _ := proxyName_not_declared c
  chain_new _ needs := chainName_not_declared needs.mem_chains
  proxy_injective _ _ _ _ same := proxyName_injective same
  chain_injective _ _ needs needs' same :=
    eq_of_mem_chains needs.mem_chains (same ▸ needs'.mem_chains)
  proxy_ne_chain c _ _ needs := chainName_ne_proxyName needs.mem_chains c
  alternatives_proxy _ needs := alternatives_binarized_proxy wf needs
  alternatives_chain ending needs := by
    have chain := needs.mem_chains
    obtain ⟨m, n, pair⟩ := (ending_of_mem_chains chain).exists_pair (two_le_of_mem_chains chain)
    exact ⟨m, n, by rw [alternatives_binarized_chain wf chain, pair]⟩
  size_alternatives _ declared := size_alternatives_binarized wf declared

/-- A grammar in which two long right-hand sides end alike, letters occur more than once, and names like
those of new nonterminals are declared. -/
def overlapping : Grammar where
  start := "S"
  nonterminals := .ofList ["S", "A", "X1", "T_a"]
  terminals := .ofList ['a', 'b']
  productions := .ofList [
    ⟨"S", [.terminal 'a', .nonterminal "A", .nonterminal "X1", .terminal 'a']⟩,
    ⟨"S", [.terminal 'b', .nonterminal "A", .nonterminal "X1", .terminal 'a']⟩,
    ⟨"S", [.terminal 'b']⟩, ⟨"A", [.nonterminal "X1", .terminal 'a']⟩,
    ⟨"X1", [.terminal 'a']⟩, ⟨"T_a", [.terminal 'b']⟩]

/-- The common ending of the overlapping grammar has one chain nonterminal with one alternative, and its
letter one proxy. The alternatives of the start do not become fewer. -/
theorem binarized_shares_overlapping :
    overlapping.WellFormed ∧ overlapping.NeedsProxy 'a' ∧
      overlapping.NeedsChain [.nonterminal "A", .nonterminal "X1", .terminal 'a'] ∧
      "S" ∈ overlapping.nonterminals ∧
      overlapping.binarized.alternatives "T_a'" = {[.terminal 'a']} ∧
      (∃ m n, overlapping.binarized.alternatives "X2" = {[.nonterminal m, .nonterminal n]}) ∧
      (overlapping.binarized.alternatives "S").size = 3 := by
  have wf : overlapping.WellFormed := by decide +kernel
  have long : ⟨"S", [.terminal 'a', .nonterminal "A", .nonterminal "X1", .terminal 'a']⟩ ∈
      overlapping.productions := by decide +kernel
  have needsProxy : overlapping.NeedsProxy 'a' := ⟨_, long, by decide, by decide⟩
  have needsChain : overlapping.NeedsChain [.nonterminal "A", .nonterminal "X1", .terminal 'a'] :=
    ⟨_, long, by decide, by decide, List.suffix_cons _ _, by decide⟩
  have start : "S" ∈ overlapping.nonterminals := by decide +kernel
  have proxy : overlapping.proxyName 'a' = "T_a'" := by decide +kernel
  have chain : overlapping.chainName [.nonterminal "A", .nonterminal "X1", .terminal 'a'] = "X2" := by
    decide +kernel
  have size : (overlapping.alternatives "S").size = 3 := by decide +kernel
  have shares := binarized_shares wf
  refine ⟨wf, needsProxy, needsChain, start, ?_, ?_, ?_⟩
  · rw [← proxy]
    exact shares.alternatives_proxy 'a' needsProxy
  · rw [← chain]
    exact shares.alternatives_chain _ needsChain
  · rw [shares.size_alternatives "S" start, size]

end FormalLanguages.Grammar
