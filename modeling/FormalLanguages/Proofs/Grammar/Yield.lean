import FormalLanguages.Grammar.Language

/-! # Derivations read symbol by symbol

A derivation of a word can be taken apart: every symbol of a form contributes a stretch of the word.
`Grammar.Yields` is derivability of words in this compositional shape, and `derives_ofWord_iff` says
that it is nothing else. Two ways to carry a derivation over to another grammar are stated here once:
`Yields.translate` replaces nonterminals by forms, and `Yields.restrict` stays among nonterminals
whose productions both grammars have. -/

namespace FormalLanguages

/-- Replaces every nonterminal of a form by a form. -/
def Form.translate (image : String → Form) (form : Form) : Form :=
  form.flatMap fun
    | .terminal c => [.terminal c]
    | .nonterminal n => image n

namespace Form

@[simp] theorem translate_nil (image : String → Form) : translate image [] = [] := rfl

@[simp] theorem translate_terminal (image : String → Form) (c : Char) (rest : Form) :
    translate image (.terminal c :: rest) = .terminal c :: translate image rest := rfl

@[simp] theorem translate_nonterminal (image : String → Form) (n : String) (rest : Form) :
    translate image (.nonterminal n :: rest) = image n ++ translate image rest := rfl

/-- The names in the form of a single nonterminal are its name. -/
theorem forall_names_singleton {Holds : String → Prop} {name : String} (h : Holds name) :
    ∀ n, .nonterminal n ∈ [Symbol.nonterminal name] → Holds n := by
  intro n hn
  rw [List.mem_singleton, Symbol.nonterminal.injEq] at hn
  rw [hn]
  exact h

/-- A translation that leaves the nonterminals of a form alone leaves the form alone. -/
theorem translate_eq_self {image : String → Form} {form : Form}
    (fixed : ∀ n, .nonterminal n ∈ form → image n = [.nonterminal n]) :
    translate image form = form := by
  induction form with
  | nil => rfl
  | cons s rest ih =>
    have tail := ih fun n hn => fixed n (List.mem_cons_of_mem _ hn)
    cases s with
    | terminal c => rw [translate_terminal, tail]
    | nonterminal n =>
      rw [translate_nonterminal, tail, fixed n List.mem_cons_self, List.singleton_append]

end Form

namespace Grammar

/-- **Yielding**: a form yields a word that its symbols contribute to one after the other, letters
themselves and nonterminals what one of their alternatives yields. -/
inductive Yields (g : Grammar) : Form → List Char → Prop
  /-- The empty form yields the empty word. -/
  | nil : Yields g [] []
  /-- A letter contributes itself. -/
  | letter {c : Char} {rest : Form} {word : List Char} (tail : Yields g rest word) :
      Yields g (.terminal c :: rest) (c :: word)
  /-- A nonterminal contributes what an alternative yields. -/
  | expand {name : String} {rhs rest : Form} {first second : List Char}
      (mem : ⟨name, rhs⟩ ∈ g.productions) (head : Yields g rhs first)
      (tail : Yields g rest second) : Yields g (.nonterminal name :: rest) (first ++ second)

section Structure

variable {g : Grammar}

@[simp] theorem yields_nil_iff {word : List Char} : g.Yields [] word ↔ word = [] := by
  constructor
  · intro h
    cases h
    rfl
  · rintro rfl
    exact .nil

/-- A leading letter is the first letter of the word. -/
@[simp] theorem yields_terminal_iff {c : Char} {rest : Form} {word : List Char} :
    g.Yields (.terminal c :: rest) word ↔ ∃ tail, word = c :: tail ∧ g.Yields rest tail := by
  constructor
  · intro h
    cases h with
    | letter tail => exact ⟨_, rfl, tail⟩
  · rintro ⟨tail, rfl, h⟩
    exact .letter h

/-- A nonterminal yields what one of its alternatives yields. -/
theorem yields_nonterminal_iff {name : String} {word : List Char} :
    g.Yields [.nonterminal name] word ↔
      ∃ rhs, ⟨name, rhs⟩ ∈ g.productions ∧ g.Yields rhs word := by
  constructor
  · intro h
    cases h with
    | expand mem head tail =>
      rw [yields_nil_iff.1 tail, List.append_nil]
      exact ⟨_, mem, head⟩
  · rintro ⟨rhs, mem, h⟩
    have := Yields.expand mem h .nil
    rwa [List.append_nil] at this

/-- A sequence of forms yields the words made of what each of them yields. -/
theorem yields_append_iff {form other : Form} {word : List Char} :
    g.Yields (form ++ other) word ↔
      ∃ first second, word = first ++ second ∧ g.Yields form first ∧ g.Yields other second := by
  constructor
  · intro h
    generalize both : form ++ other = whole at h
    induction h generalizing form with
    | nil =>
      obtain ⟨rfl, rfl⟩ := List.append_eq_nil_iff.1 both
      exact ⟨[], [], rfl, .nil, .nil⟩
    | letter tail ih =>
      rcases List.append_eq_cons_iff.1 both with ⟨rfl, rfl⟩ | ⟨rest, rfl, tailEq⟩
      · exact ⟨[], _, rfl, .nil, .letter tail⟩
      · obtain ⟨first, second, rfl, left, right⟩ := ih tailEq.symm
        exact ⟨_ :: first, second, rfl, .letter left, right⟩
    | expand mem head tail _ ih =>
      rcases List.append_eq_cons_iff.1 both with ⟨rfl, rfl⟩ | ⟨rest, rfl, tailEq⟩
      · exact ⟨[], _, rfl, .nil, .expand mem head tail⟩
      · obtain ⟨first, second, rfl, left, right⟩ := ih tailEq.symm
        refine ⟨_ ++ first, second, ?_, .expand mem head left, right⟩
        rw [List.append_assoc]
  · rintro ⟨first, second, rfl, left, right⟩
    induction left with
    | nil => exact right
    | letter _ ih => exact .letter ih
    | expand mem head _ _ ih =>
      rw [List.append_assoc]
      exact .expand mem head ih

theorem Yields.append {form other : Form} {first second : List Char}
    (left : g.Yields form first) (right : g.Yields other second) :
    g.Yields (form ++ other) (first ++ second) :=
  yields_append_iff.2 ⟨first, second, rfl, left, right⟩

/-- A leading nonterminal contributes the beginning of the word. -/
theorem yields_cons_iff {s : Symbol} {rest : Form} {word : List Char} :
    g.Yields (s :: rest) word ↔
      ∃ first second, word = first ++ second ∧ g.Yields [s] first ∧ g.Yields rest second := by
  rw [← List.singleton_append]
  exact yields_append_iff

/-- A word yields itself. -/
theorem yields_ofWord (word : List Char) : g.Yields (Form.ofWord word) word := by
  induction word with
  | nil => exact .nil
  | cons c rest ih => exact .letter ih

end Structure

/-! ## Yielding is deriving a word -/

section Derivations

variable {g : Grammar}

/-- What a form yields, it derives. -/
theorem Yields.derives {form : Form} {word : List Char} (h : g.Yields form word) :
    g.Derives form (Form.ofWord word) := by
  induction h with
  | nil => exact .refl _
  | letter _ ih => simpa using ih.append [.terminal _] []
  | @expand name rhs rest first second mem _ _ ihHead ihTail =>
    have head : g.Derives [.nonterminal name] (Form.ofWord first) := .step (.of_mem mem) ihHead
    rw [Form.ofWord_append]
    refine Derives.trans ?_ (?_ : g.Derives (Form.ofWord first ++ rest) _)
    · simpa using head.append [] rest
    · simpa using ihTail.append (Form.ofWord first) []

/-- Undoing a step does not change which words a form yields. -/
theorem Yields.of_step {form other : Form} {word : List Char} (step : g.Step form other)
    (h : g.Yields other word) : g.Yields form word := by
  obtain ⟨before, after, p, mem⟩ := step
  obtain ⟨start, rest, rfl, left, right⟩ := yields_append_iff.1 h
  obtain ⟨first, middle, rfl, outer, inner⟩ := yields_append_iff.1 left
  rw [List.append_assoc]
  exact outer.append (.expand mem inner right)

/-- A form that derives a word yields it. -/
theorem Derives.yields {form : Form} {word : List Char}
    (h : g.Derives form (Form.ofWord word)) : g.Yields form word := by
  generalize spelled : Form.ofWord word = target at h
  induction h with
  | refl u => exact spelled ▸ yields_ofWord word
  | step first _ ih => exact .of_step first (ih spelled)

/-- **Yielding is deriving a word.** -/
theorem derives_ofWord_iff {form : Form} {word : List Char} :
    g.Derives form (Form.ofWord word) ↔ g.Yields form word :=
  ⟨Derives.yields, Yields.derives⟩

/-- What a nonterminal generates is what it yields. -/
theorem generates_iff {name : String} {word : List Char} :
    g.Generates name word ↔ g.Yields [.nonterminal name] word := derives_ofWord_iff

/-- The language is what the start yields. -/
theorem language_iff {word : List Char} :
    g.Language word ↔ g.Yields [.nonterminal g.start] word := derives_ofWord_iff

end Derivations

/-! ## Carrying derivations over to another grammar -/

section Transfer

variable {g h : Grammar}

/-- **Translating derivations**: if the image of every left-hand side yields what the image of the
right-hand side yields, then the image of every form yields what the form yields. -/
theorem Yields.translate {image : String → Form}
    (simulated : ∀ p, p ∈ g.productions → ∀ word,
      h.Yields (Form.translate image p.rhs) word → h.Yields (image p.lhs) word)
    {form : Form} {word : List Char} (d : g.Yields form word) :
    h.Yields (Form.translate image form) word := by
  induction d with
  | nil => exact .nil
  | letter _ ih => exact .letter ih
  | expand mem _ _ ihHead ihTail => exact (simulated _ mem _ ihHead).append ihTail

/-- If every left-hand side yields in another grammar what the right-hand side yields there, then
the other grammar yields all words. -/
theorem Yields.simulate
    (simulated : ∀ p, p ∈ g.productions → ∀ word,
      h.Yields p.rhs word → h.Yields [.nonterminal p.lhs] word)
    {form : Form} {word : List Char} (d : g.Yields form word) : h.Yields form word := by
  have same : ∀ form, Form.translate (fun n => [.nonterminal n]) form = form :=
    fun form => Form.translate_eq_self fun _ _ => rfl
  rw [← same form]
  refine d.translate fun p mem word hw => ?_
  rw [same] at hw
  exact simulated p mem word hw

/-- More productions yield at least as many words. -/
theorem Yields.mono (sub : g.productions ⊆ h.productions) {form : Form} {word : List Char}
    (d : g.Yields form word) : h.Yields form word :=
  d.simulate fun p mem _ hw => yields_nonterminal_iff.2 ⟨p.rhs, sub p mem, hw⟩

/-- **Restricting derivations**: a derivation stays among nonterminals whose productions lead to
such nonterminals only, so a grammar that has these productions yields the same words. -/
theorem Yields.restrict (Kept : String → Prop)
    (closed : ∀ p, p ∈ g.productions → Kept p.lhs →
      p ∈ h.productions ∧ ∀ n, .nonterminal n ∈ p.rhs → Kept n)
    {form : Form} {word : List Char} (d : g.Yields form word)
    (kept : ∀ n, .nonterminal n ∈ form → Kept n) : h.Yields form word := by
  induction d with
  | nil => exact .nil
  | letter _ ih => exact .letter (ih fun n hn => kept n (List.mem_cons_of_mem _ hn))
  | expand mem _ _ ihHead ihTail =>
    obtain ⟨mem', inside⟩ := closed _ mem (kept _ List.mem_cons_self)
    exact .expand mem' (ihHead inside) (ihTail fun n hn => kept n (List.mem_cons_of_mem _ hn))

end Transfer

end Grammar

end FormalLanguages
