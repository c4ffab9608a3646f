import FormalLanguages.Proofs.Grammar.NormalShape
import FormalLanguages.Proofs.RightLinear.Yield
import FormalLanguages.Proofs.Sampling.Soundness

/-! # How long derivations are

Where every rewriting adds the same weight to a form, the word tells how many rewritings there
were. In normal form a letter weighs two and a nonterminal one, and a rewriting adds one unless it
erases the start, which happens in the first step or not at all. Where right-hand sides are a
letter, alone or with a nonterminal behind it, rewritings are counted by the letters
(`Grammar.derivationFrom_length`). -/

namespace FormalLanguages

namespace Form

/-- The **weight** of a form in which each letter weighs `letter` and each nonterminal weighs
`name`. -/
def weight (letter name : Nat) : Form → Nat
  | [] => 0
  | .terminal _ :: rest => letter + weight letter name rest
  | .nonterminal _ :: rest => name + weight letter name rest

variable {letter name : Nat} {c : Char} {n : String} {rest : Form}

@[simp] theorem weight_nil : weight letter name [] = 0 := rfl

@[simp] theorem weight_terminal :
    weight letter name (.terminal c :: rest) = letter + weight letter name rest := rfl

@[simp] theorem weight_nonterminal :
    weight letter name (.nonterminal n :: rest) = name + weight letter name rest := rfl

/-- Weights add up. -/
@[simp] theorem weight_append (u v : Form) :
    weight letter name (u ++ v) = weight letter name u + weight letter name v := by
  induction u with
  | nil => rw [List.nil_append, weight_nil, Nat.zero_add]
  | cons s rest ih =>
    rw [List.cons_append]
    cases s with
    | terminal c => rw [weight_terminal, weight_terminal, ih, Nat.add_assoc]
    | nonterminal n => rw [weight_nonterminal, weight_nonterminal, ih, Nat.add_assoc]

/-- The weight of a word is told by its length. -/
@[simp] theorem weight_ofWord (word : List Char) :
    weight letter name (ofWord word) = letter * word.length := by
  induction word with
  | nil => rfl
  | cons c rest ih =>
    rw [ofWord_cons, weight_terminal, ih, List.length_cons, Nat.mul_succ, Nat.add_comm]

end Form

namespace Grammar

variable {g : Grammar} {n : Nat} {name : String} {u v : Form} {word : List Char}

/-! ## Steps and weights -/

/-- A step from a nonterminal alone leads to one of its alternatives. -/
theorem LeftmostStep.mem_of_nonterminal (h : g.LeftmostStep [.nonterminal name] v) :
    ⟨name, v⟩ ∈ g.productions := by
  generalize alone : [Symbol.nonterminal name] = u at h
  obtain ⟨before, after, p, mem⟩ := h
  cases before with
  | nil =>
    cases alone
    simpa using mem
  | cons c before => cases alone

/-- A step adds to the weight what the right-hand side weighs more than the nonterminal. -/
theorem LeftmostStep.exists_weight_eq (letter other : Nat) (h : g.LeftmostStep u v) :
    ∃ p, p ∈ g.productions ∧ .nonterminal p.lhs ∈ u ∧
      (∀ m, .nonterminal m ∈ v → .nonterminal m ∈ u ∨ .nonterminal m ∈ p.rhs) ∧
      Form.weight letter other v + other =
        Form.weight letter other u + Form.weight letter other p.rhs := by
  obtain ⟨before, after, p, mem⟩ := h
  refine ⟨p, mem, by simp, fun m occurs => ?_, ?_⟩
  · simp only [List.mem_append, List.mem_cons] at occurs ⊢
    rcases occurs with (occurs | occurs) | occurs
    · exact .inl (.inl occurs)
    · exact .inr occurs
    · exact .inl (.inr (.inr occurs))
  · simp only [Form.weight_append, Form.weight_nonterminal]
    omega

/-- **Rewritings are counted by the weight** where each step from a form that is under consideration
adds one to it and leads to such a form again. -/
theorem LeftmostDerives.weight_eq {letter other : Nat} {considered : Form → Prop}
    (step : ∀ u v, considered u → g.LeftmostStep u v →
      considered v ∧ Form.weight letter other v = Form.weight letter other u + 1)
    (h : g.LeftmostDerives n u v) (start : considered u) :
    Form.weight letter other v = Form.weight letter other u + n := by
  induction h with
  | refl u => rfl
  | step first _ ih =>
    obtain ⟨next, added⟩ := step _ _ start first
    rw [ih next, added]
    omega

/-! ## Normal form -/

/-- In normal form a right-hand side weighs two if it is not empty. -/
theorem IsNormal.weight_rhs (normal : g.IsNormal) {p : Production} (mem : p ∈ g.productions)
    (nonempty : p.rhs ≠ []) : Form.weight 2 1 p.rhs = 2 := by
  rcases conforms_iff.1 (normal p mem) with ⟨empty, _⟩ | ⟨c, isLetter⟩ | ⟨m, n, isPair⟩
  · exact absurd empty nonempty
  · rw [isLetter]
    rfl
  · rw [isPair]
    rfl

/-- A form **cannot be erased** when it does not hold a start that occurs on no right-hand side. -/
def Unerasable (g : Grammar) (form : Form) : Prop :=
  g.StartIsolated → .nonterminal g.start ∉ form

/-- What follows the first step cannot be erased. -/
theorem unerasable_rhs {p : Production} (mem : p ∈ g.productions) : g.Unerasable p.rhs :=
  fun isolated => isolated p mem

/-- In normal form a step from a form that cannot be erased adds one to the weight and leads to such
a form again. -/
theorem IsNormal.weight_step (normal : g.IsNormal) (lasting : g.Unerasable u)
    (h : g.LeftmostStep u v) :
    g.Unerasable v ∧ Form.weight 2 1 v = Form.weight 2 1 u + 1 := by
  obtain ⟨p, mem, occurs, origin, added⟩ := h.exists_weight_eq 2 1
  have nonempty : p.rhs ≠ [] := by
    intro empty
    rcases conforms_iff.1 (normal p mem) with ⟨_, isStart, isolated⟩ | ⟨c, shape⟩ | ⟨m, n, shape⟩
    · exact lasting isolated (isStart ▸ occurs)
    · cases empty.symm.trans shape
    · cases empty.symm.trans shape
  rw [normal.weight_rhs mem nonempty] at added
  refine ⟨fun isolated start => ?_, Nat.succ.inj added⟩
  rcases origin _ start with before | within
  · exact lasting isolated before
  · exact isolated p mem within

/-- **In normal form a word of `n` letters takes `2 n - 1` rewritings**, if it is not empty. -/
theorem IsNormal.leftmostDerives_length (normal : g.IsNormal) (nonempty : word ≠ [])
    (h : g.LeftmostDerives n [.nonterminal name] (Form.ofWord word)) :
    n + 1 = 2 * word.length := by
  generalize spelled : Form.ofWord word = target at h
  cases h with
  | refl => cases word <;> cases spelled
  | @step k _ rhs _ first rest =>
    subst spelled
    have mem := first.mem_of_nonterminal
    have remains : rhs ≠ [] := by
      rintro rfl
      exact nonempty (Grammar.yields_nil_iff.1 (derives_ofWord_iff.1 rest.derives))
    have total := rest.weight_eq (fun _ _ => normal.weight_step) (unerasable_rhs mem)
    rw [normal.weight_rhs mem remains, Form.weight_ofWord] at total
    omega

/-! ## A letter at a time -/

/-- A grammar **spells a letter at a time** when its right-hand sides are a letter, alone or with a
nonterminal behind it. -/
def SpellsLetters (g : Grammar) : Prop :=
  ∀ p, p ∈ g.productions → Form.RightLinear p.rhs ∧ p.rhs ≠ []

instance (g : Grammar) : Decidable g.SpellsLetters :=
  inferInstanceAs (Decidable (∀ p, p ∈ g.productions → Form.RightLinear p.rhs ∧ p.rhs ≠ []))

/-- Each right-hand side spells one letter. -/
theorem SpellsLetters.weight_rhs (spells : g.SpellsLetters) {p : Production}
    (mem : p ∈ g.productions) : Form.weight 1 0 p.rhs = 1 := by
  obtain ⟨lhs, rhs⟩ := p
  obtain ⟨linear, nonempty⟩ := spells _ mem
  cases linear with
  | empty => exact absurd rfl nonempty
  | letter c => rfl
  | linked c m => rfl

/-- Each step adds one letter. -/
theorem SpellsLetters.weight_step (spells : g.SpellsLetters) (h : g.LeftmostStep u v) :
    Form.weight 1 0 v = Form.weight 1 0 u + 1 := by
  obtain ⟨p, mem, _, _, added⟩ := h.exists_weight_eq 1 0
  rw [spells.weight_rhs mem] at added
  exact added

/-- **Where a letter is spelled at a time a word takes a rewriting for each letter.** -/
theorem SpellsLetters.leftmostDerives_length (spells : g.SpellsLetters)
    (h : g.LeftmostDerives n [.nonterminal name] (Form.ofWord word)) : n = word.length := by
  have total := h.weight_eq (fun _ _ _ step => ⟨trivial, spells.weight_step step⟩) trivial
  rw [Form.weight_ofWord, Form.weight_nonterminal, Form.weight_nil] at total
  omega

/-! ## Derivations -/

/-- **The word tells how long its derivation is**, whatever is chosen on the way. In normal form a
word of `n` letters has `2 n` forms if it is not empty, and where a letter is spelled at a time it
has `n + 1`; so it is derived only within a budget of one rewriting less. -/
theorem derivationFrom_length {σ : Type} (chooser : Sampling.Chooser σ Form) (g : Grammar)
    (name : String) (source : σ) (budget : Nat) (d : Derivation)
    (derived : (g.derivationFrom chooser name source budget).1 = .ok d) :
    (g.IsNormal → d.word ≠ "" →
        d.forms.length = 2 * d.word.length ∧ 2 * d.word.length - 1 ≤ budget) ∧
      (g.SpellsLetters → d.forms.length = d.word.length + 1 ∧ d.word.length ≤ budget) := by
  obtain ⟨word, trace, spelled, short⟩ := exists_trace_of_derivationFrom derived
  obtain ⟨rest, forms⟩ := trace.eq_cons
  have steps := trace.leftmostDerives
  rw [forms, List.length_cons] at short ⊢
  rw [forms, List.length_cons, Nat.add_sub_cancel] at steps
  rw [spelled, String.length_ofList]
  refine ⟨fun normal nonempty => ?_, fun spells => ?_⟩
  · have letters : word ≠ [] := by
      rintro rfl
      exact nonempty rfl
    have length := normal.leftmostDerives_length letters steps
    omega
  · have length := spells.leftmostDerives_length steps
    omega

/-- A grammar in normal form that also derives the empty word. -/
def pairing : Grammar where
  start := "S"
  nonterminals := .ofList ["S", "A", "B"]
  terminals := .ofList ['a', 'b']
  productions := .ofList [
    ⟨"S", []⟩, ⟨"S", [.nonterminal "A", .nonterminal "B"]⟩, ⟨"A", [.terminal 'a']⟩,
    ⟨"A", [.nonterminal "A", .nonterminal "A"]⟩, ⟨"B", [.terminal 'b']⟩]

/-- A grammar that spells a letter at a time. -/
def marching : Grammar where
  start := "S"
  nonterminals := .ofList ["S"]
  terminals := .ofList ['a', 'b']
  productions := .ofList [⟨"S", [.terminal 'a', .nonterminal "S"]⟩, ⟨"S", [.terminal 'b']⟩]

/-- Five rewritings lead the pairing grammar to a word of three letters, and two lead the marching
grammar to one of two letters. -/
theorem derivationFrom_length_pairing :
    (pairing.derivationFrom Sampling.Source.chooser "S"
        (.ofList [2147483648, 2147483648, 0, 0, 0]) 5).1 =
      .ok ⟨[[.nonterminal "S"], [.nonterminal "A", .nonterminal "B"],
        [.nonterminal "A", .nonterminal "A", .nonterminal "B"],
        [.terminal 'a', .nonterminal "A", .nonterminal "B"],
        [.terminal 'a', .terminal 'a', .nonterminal "B"],
        [.terminal 'a', .terminal 'a', .terminal 'b']]⟩ ∧
      pairing.IsNormal ∧ 6 = 2 * "aab".length ∧ 2 * "aab".length - 1 ≤ 5 ∧
      (marching.derivationFrom Sampling.Source.chooser "S" (.ofList [0, 2147483648]) 2).1 =
        .ok ⟨[[.nonterminal "S"], [.terminal 'a', .nonterminal "S"],
          [.terminal 'a', .terminal 'b']]⟩ ∧
      marching.SpellsLetters ∧ 3 = "ab".length + 1 ∧ "ab".length ≤ 2 := by
  have paired : (pairing.derivationFrom Sampling.Source.chooser "S"
      (.ofList [2147483648, 2147483648, 0, 0, 0]) 5).1 =
    .ok ⟨[[.nonterminal "S"], [.nonterminal "A", .nonterminal "B"],
      [.nonterminal "A", .nonterminal "A", .nonterminal "B"],
      [.terminal 'a', .nonterminal "A", .nonterminal "B"],
      [.terminal 'a', .terminal 'a', .nonterminal "B"],
      [.terminal 'a', .terminal 'a', .terminal 'b']]⟩ := by decide +kernel
  have marched : (marching.derivationFrom Sampling.Source.chooser "S"
      (.ofList [0, 2147483648]) 2).1 =
    .ok ⟨[[.nonterminal "S"], [.terminal 'a', .nonterminal "S"],
      [.terminal 'a', .terminal 'b']]⟩ := by decide +kernel
  have normal : pairing.IsNormal := by decide +kernel
  have spells : marching.SpellsLetters := by decide +kernel
  obtain ⟨long, within⟩ := (derivationFrom_length _ _ _ _ _ _ paired).1 normal (by decide +kernel)
  obtain ⟨long', within'⟩ := (derivationFrom_length _ _ _ _ _ _ marched).2 spells
  exact ⟨paired, normal, long, within, marched, spells, long', within'⟩

end Grammar

end FormalLanguages
