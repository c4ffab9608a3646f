import FormalLanguages.Proofs.Hierarchy.Integrity

/-! # What type 1 says about the lengths of forms

A grammar is of type 1 when some left-hand side is more than a single nonterminal, and the rules for
such left-hand sides do not shorten a form (`PhraseGrammar.classify_eq_contextSensitive_iff`). The
rules for a single nonterminal stay outside the length condition, so what they may do is erase it.
A run of rewritings therefore shortens a form by at most the number of its erasing steps
(`PhraseGrammar.Run.length_le`). -/

namespace FormalLanguages

/-- Whether a production **erases**: it rewrites a single nonterminal into nothing. -/
def Rewriting.erases : Rewriting → Bool
  | ⟨[.nonterminal _], []⟩ => true
  | _ => false

/-- The erasing productions. -/
theorem Rewriting.erases_iff {r : Rewriting} :
    r.erases = true ↔ ∃ name, r = ⟨[.nonterminal name], []⟩ := by
  unfold erases
  split
  · exact iff_of_true rfl ⟨_, rfl⟩
  · rename_i other
    exact iff_of_false Bool.false_ne_true fun ⟨name, same⟩ => other name same

namespace PhraseGrammar

variable {g : PhraseGrammar} {r : Rewriting} {rs : List Rewriting} {u v : Form}

/-! ## Rewriting -/

/-- **One step**: a production rewrites an occurrence of its left-hand side. -/
inductive Step (g : PhraseGrammar) (r : Rewriting) : Form → Form → Prop
  /-- The production is used between `before` and `after`. -/
  | rewrite (before after : Form) (mem : r ∈ g.productions) :
      Step g r (before ++ r.lhs ++ after) (before ++ r.rhs ++ after)

/-- A **run**: finitely many steps, with the productions that they use. -/
inductive Run (g : PhraseGrammar) : List Rewriting → Form → Form → Prop
  /-- No step is used to stay at a form. -/
  | refl (u : Form) : Run g [] u u
  /-- A run continues after its first step. -/
  | step {r : Rewriting} {rs : List Rewriting} {u v w : Form} (first : g.Step r u v)
      (rest : Run g rs v w) : Run g (r :: rs) u w

/-- The **sentential forms**: what runs from the start lead to. -/
def Sentential (g : PhraseGrammar) (u : Form) : Prop :=
  ∃ rs, g.Run rs [.nonterminal g.start] u

/-- A grammar is **noncontracting** when no production is shorter on the right, except that a start
that occurs on no right-hand side may vanish. -/
def Noncontracting (g : PhraseGrammar) : Prop :=
  ∀ r, r ∈ g.productions → r.lhs.length ≤ r.rhs.length ∨
    r = ⟨[.nonterminal g.start], []⟩ ∧ g.startOccursOnRight = false

/-! ## The productions of a grammar of type 1 -/

/-- **Type 1**: everything is declared, productions for more than a single nonterminal do not
shorten, and there is a left-hand side of this kind. -/
theorem classify_eq_contextSensitive_iff :
    g.classify = .ok .contextSensitive ↔
      g.WellFormed ∧
        (∀ r, r ∈ g.productions →
          (∃ name, r.lhs = [.nonterminal name]) ∨ r.lhs.length ≤ r.rhs.length) ∧
        ∃ lhs, lhs ∈ g.leftSides ∧ ∀ name, lhs ≠ [.nonterminal name] := by
  have number : g.level = .contextSensitive ↔ 1 ≤ g.level.number ∧ ¬ 2 ≤ g.level.number :=
    Level.eq_iff_number
  have exceeds : ¬ 2 ≤ g.level.number ↔
      ∃ lhs, lhs ∈ g.leftSides ∧ ∀ name, lhs ≠ [.nonterminal name] := by
    rw [two_le_number_level_iff]
    simp only [Classical.not_forall, not_exists, exists_prop, ne_eq]
  rw [classify_eq_ok_iff, number, one_le_number_level_iff, exceeds]

/-- A production of a grammar of type 1 that shortens a form erases a nonterminal. -/
theorem erases_of_contextSensitive (found : g.classify = .ok .contextSensitive)
    (mem : r ∈ g.productions) (shorter : r.rhs.length < r.lhs.length) : r.erases = true := by
  obtain ⟨_, shape, _⟩ := classify_eq_contextSensitive_iff.1 found
  rcases shape r mem with ⟨name, single⟩ | longer
  -- nothing but the empty form is shorter than one symbol
  · have empty : r.rhs = [] := by
      rw [single] at shorter
      exact List.eq_nil_of_length_eq_zero (Nat.lt_one_iff.1 shorter)
    exact Rewriting.erases_iff.2 ⟨name, by rw [← single, ← empty]⟩
  · omega

/-- **When a grammar of type 1 is noncontracting**: no nonterminal is erased but a start that occurs
on no right-hand side. -/
theorem noncontracting_iff (found : g.classify = .ok .contextSensitive) :
    g.Noncontracting ↔ ∀ name, ⟨[.nonterminal name], []⟩ ∈ g.productions →
      name = g.start ∧ g.startOccursOnRight = false := by
  constructor
  · intro noncontracting name mem
    rcases noncontracting _ mem with longer | ⟨same, isolated⟩
    · exact absurd longer (Nat.not_succ_le_zero 0)
    · cases same
      exact ⟨rfl, isolated⟩
  · intro erased r mem
    rcases Nat.lt_or_ge r.rhs.length r.lhs.length with shorter | longer
    · obtain ⟨name, rfl⟩ := Rewriting.erases_iff.1 (erases_of_contextSensitive found mem shorter)
      obtain ⟨rfl, isolated⟩ := erased name mem
      exact .inr ⟨rfl, isolated⟩
    · exact .inl longer

/-! ## Lengths along a run -/

/-- A step changes the length of a form as its production does. -/
theorem Step.length_add (step : g.Step r u v) :
    u.length + r.rhs.length = v.length + r.lhs.length := by
  obtain ⟨before, after, _⟩ := step
  simp only [List.length_append]
  omega

/-- The production of a step is one of the grammar. -/
theorem Step.mem (step : g.Step r u v) : r ∈ g.productions := by
  obtain ⟨_, _, mem⟩ := step
  exact mem

/-- **A step** that does not erase a nonterminal does not shorten a form. -/
theorem Step.length_le (found : g.classify = .ok .contextSensitive) (step : g.Step r u v)
    (kept : ¬ r.erases = true) : u.length ≤ v.length := by
  have longer : ¬ r.rhs.length < r.lhs.length := mt (erases_of_contextSensitive found step.mem) kept
  have change := step.length_add
  omega

/-- An erasing step shortens a form by one. -/
theorem Step.length_of_erases (step : g.Step r u v) (erases : r.erases = true) :
    u.length = v.length + 1 := by
  obtain ⟨name, rfl⟩ := Rewriting.erases_iff.1 erases
  exact step.length_add

/-- **A run** shortens a form by at most the number of its erasing steps. -/
theorem Run.length_le (found : g.classify = .ok .contextSensitive) (run : g.Run rs u v) :
    u.length ≤ v.length + rs.countP Rewriting.erases := by
  induction run with
  | refl u => exact Nat.le_add_right _ _
  | @step r rs u v w first _ ih =>
    -- an erasing step is paid for by its place in the list, any other step needs no payment
    by_cases erases : r.erases = true
    · have change := first.length_of_erases erases
      rw [List.countP_cons_of_pos erases]
      omega
    · have change := first.length_le found erases
      rw [List.countP_cons_of_neg erases]
      omega

/-- **What type 1 says about lengths**: a production that shortens a form erases a single
nonterminal; every other step keeps or exceeds the length of the form, and a run loses at most one
symbol for each of its erasing steps. The grammar is noncontracting when only a start that occurs on
no right-hand side is erased, and not otherwise. -/
theorem length_le_of_contextSensitive (found : g.classify = .ok .contextSensitive) :
    (∀ r, r ∈ g.productions → r.lhs.length ≤ r.rhs.length ∨ r.erases = true) ∧
      (∀ r u v, g.Step r u v → ¬ r.erases = true → u.length ≤ v.length) ∧
      (∀ rs u v, g.Run rs u v → u.length ≤ v.length + rs.countP Rewriting.erases) ∧
      (g.Noncontracting ↔ ∀ name, ⟨[.nonterminal name], []⟩ ∈ g.productions →
        name = g.start ∧ g.startOccursOnRight = false) := by
  refine ⟨fun r mem => ?_, fun r u v step kept => step.length_le found kept,
    fun rs u v run => run.length_le found, noncontracting_iff found⟩
  rcases Nat.lt_or_ge r.rhs.length r.lhs.length with shorter | longer
  · exact .inr (erases_of_contextSensitive found mem shorter)
  · exact .inl longer

/-- A grammar of type 1 that erases nonterminals: `A`, which is not the start, and the start `S`,
which occurs on a right-hand side. -/
def forgetful : PhraseGrammar :=
  let declared : PhraseGrammar :=
    { start := "S", nonterminals := .ofList ["A", "B", "S"], terminals := .ofList ['b'] }
  declared.addRule [.nonterminal "S"] [[.nonterminal "A", .nonterminal "B"], []]
    |>.addRule [.nonterminal "A", .nonterminal "B"] [[.nonterminal "B", .nonterminal "A"]]
    |>.addRule [.nonterminal "A"] [[]]
    |>.addRule [.nonterminal "B"] [[.terminal 'b', .nonterminal "S"], [.terminal 'b']]

/-- The forgetful grammar is of type 1, its productions that shorten a form erase nonterminals, and
its runs lose no more than one symbol for each of their erasing steps. -/
theorem length_le_of_contextSensitive_forgetful :
    forgetful.classify = .ok .contextSensitive ∧
      (∀ r, r ∈ forgetful.productions → r.lhs.length ≤ r.rhs.length ∨ r.erases = true) ∧
      ∀ rs u v, forgetful.Run rs u v → u.length ≤ v.length + rs.countP Rewriting.erases := by
  have found : forgetful.classify = .ok .contextSensitive := by rfl
  obtain ⟨productions, _, runs, _⟩ := length_le_of_contextSensitive found
  exact ⟨found, productions, runs⟩

/-- Type 1 does not make a grammar noncontracting. The forgetful grammar erases a nonterminal that
is not its start, and it erases its start though that occurs on a right-hand side. One step from its
sentential form `AB` leads to `B`, and it is not a step for the start. -/
theorem not_noncontracting_forgetful :
    forgetful.classify = .ok .contextSensitive ∧
      ¬ forgetful.Noncontracting ∧
      (⟨[.nonterminal "A"], []⟩ ∈ forgetful.productions ∧ "A" ≠ forgetful.start) ∧
      (⟨[.nonterminal "S"], []⟩ ∈ forgetful.productions ∧ forgetful.startOccursOnRight = true) ∧
      ¬ ∀ r u v, forgetful.Sentential u → forgetful.Step r u v →
        r ≠ ⟨[.nonterminal forgetful.start], []⟩ → u.length ≤ v.length := by
  have erased : ⟨[.nonterminal "A"], []⟩ ∈ forgetful.productions := by decide +kernel
  have other : "A" ≠ forgetful.start := by decide
  refine ⟨by rfl, fun noncontracting => ?_, ⟨erased, other⟩, by decide +kernel, fun kept => ?_⟩
  · rcases noncontracting _ erased with longer | ⟨same, _⟩
    · exact absurd longer (by decide)
    · exact absurd same (by decide)
  · have begins : forgetful.Step ⟨[.nonterminal "S"], [.nonterminal "A", .nonterminal "B"]⟩
        [.nonterminal "S"] [.nonterminal "A", .nonterminal "B"] :=
      .rewrite [] [] (by decide +kernel)
    have forgets : forgetful.Step ⟨[.nonterminal "A"], []⟩
        [.nonterminal "A", .nonterminal "B"] [.nonterminal "B"] :=
      .rewrite [] [.nonterminal "B"] erased
    have longer := kept _ _ _ ⟨_, .step begins (.refl _)⟩ forgets nofun
    exact absurd longer (by decide)

end PhraseGrammar

end FormalLanguages
