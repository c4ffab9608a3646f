import FormalLanguages.Grammar.Chart
import FormalLanguages.Proofs.Grammar.NormalShape

/-! # The chart is exact

In normal form a word of two or more letters falls into two shorter words, which the two
nonterminals of a pair yield. The rows of a chart follow this decomposition, so every cell holds
exactly the nonterminals that yield its stretch of the word (`Grammar.IsNormal.exists_cell`), and
`Grammar.decideMembership` decides the language. -/

namespace FormalLanguages

/-! ## Stretches of a word -/

/-- The `length` letters of a word from position `start` on. -/
def stretch (word : List Char) (start length : Nat) : List Char := (word.drop start).take length

theorem length_stretch {word : List Char} {start length : Nat}
    (inside : start + length ≤ word.length) : (stretch word start length).length = length := by
  rw [stretch, List.length_take, List.length_drop]
  omega

@[simp] theorem stretch_whole (word : List Char) : stretch word 0 word.length = word := by
  rw [stretch, List.drop_zero, List.take_length]

/-- The beginning of a stretch is a stretch. -/
theorem take_stretch {word : List Char} {start length cut : Nat} (le : cut ≤ length) :
    (stretch word start length).take cut = stretch word start cut := by
  rw [stretch, stretch, List.take_take, Nat.min_eq_left le]

/-- The rest of a stretch is a stretch. -/
theorem drop_stretch (word : List Char) (start length cut : Nat) :
    (stretch word start length).drop cut = stretch word (start + cut) (length - cut) := by
  rw [stretch, stretch, List.drop_take, List.drop_drop]

/-- A stretch of one letter. -/
theorem stretch_one {word : List Char} {start : Nat} (inside : start < word.length) :
    stretch word start 1 = [word[start]] := by
  rw [stretch, List.drop_eq_getElem_cons inside, List.take_succ_cons, List.take_zero]

namespace Grammar

variable {g : Grammar}

/-! ## Words in normal form -/

section Decomposition

variable (normal : g.IsNormal)

include normal

/-- What occurs on a right-hand side yields no empty word. -/
theorem IsNormal.ne_nil_of_mem_rhs {p : Production} (mem : p ∈ g.productions) {n : String}
    (hn : .nonterminal n ∈ p.rhs) {word : List Char} (d : g.Yields [.nonterminal n] word) :
    word ≠ [] := by
  intro empty
  rw [empty] at d
  have vanishes := normal.nil_mem_of_mem_nullable (mem_nullable_iff.2 d)
  obtain ⟨start, isolated⟩ := normal.eq_start_of_empty vanishes
  rw [start] at hn
  exact isolated p mem hn

/-- The empty word is yielded at once. -/
theorem IsNormal.yields_nil_iff {name : String} :
    g.Yields [.nonterminal name] [] ↔ ⟨name, []⟩ ∈ g.productions := by
  constructor
  · intro d
    exact normal.nil_mem_of_mem_nullable (mem_nullable_iff.2 d)
  · intro mem
    exact yields_nonterminal_iff.2 ⟨[], mem, .nil⟩

/-- A single letter is yielded at once. -/
theorem IsNormal.yields_letter_iff {name : String} {c : Char} :
    g.Yields [.nonterminal name] [c] ↔ ⟨name, [.terminal c]⟩ ∈ g.productions := by
  constructor
  · intro d
    obtain ⟨rhs, mem, d⟩ := yields_nonterminal_iff.1 d
    rcases conforms_iff.1 (normal _ mem) with ⟨empty, _⟩ | ⟨other, isLetter⟩ | ⟨m, n, isPair⟩
    · cases empty
      cases d
    · cases isLetter
      cases d
      exact mem
    -- two nonterminals would yield at least two letters
    · cases isPair
      obtain ⟨first, second, whole, left, right⟩ := yields_cons_iff.1 d
      have hFirst := normal.ne_nil_of_mem_rhs mem (by simp) left
      have hSecond := normal.ne_nil_of_mem_rhs mem (by simp) right
      have lengths := congrArg List.length whole
      rw [List.length_append, List.length_singleton] at lengths
      have := List.length_pos_iff.2 hFirst
      have := List.length_pos_iff.2 hSecond
      omega
  · intro mem
    exact yields_nonterminal_iff.2 ⟨_, mem, .letter .nil⟩

/-- **A longer word is yielded by a pair**, each nonterminal of which yields one part of it. -/
theorem IsNormal.yields_long_iff {name : String} {word : List Char} (long : 2 ≤ word.length) :
    g.Yields [.nonterminal name] word ↔
      ∃ cut, 1 ≤ cut ∧ cut < word.length ∧ ∃ m n,
        ⟨name, [.nonterminal m, .nonterminal n]⟩ ∈ g.productions ∧
          g.Yields [.nonterminal m] (word.take cut) ∧
            g.Yields [.nonterminal n] (word.drop cut) := by
  constructor
  · intro d
    obtain ⟨rhs, mem, d⟩ := yields_nonterminal_iff.1 d
    rcases conforms_iff.1 (normal _ mem) with ⟨empty, _⟩ | ⟨c, isLetter⟩ | ⟨m, n, isPair⟩
    · cases empty
      rw [FormalLanguages.Grammar.yields_nil_iff.1 d, List.length_nil] at long
      omega
    · cases isLetter
      obtain ⟨tail, rfl, rest⟩ := yields_terminal_iff.1 d
      rw [FormalLanguages.Grammar.yields_nil_iff.1 rest, List.length_singleton] at long
      omega
    · cases isPair
      obtain ⟨first, second, rfl, left, right⟩ := yields_cons_iff.1 d
      have hFirst := List.length_pos_iff.2 (normal.ne_nil_of_mem_rhs mem (by simp) left)
      have hSecond := List.length_pos_iff.2 (normal.ne_nil_of_mem_rhs mem (by simp) right)
      refine ⟨first.length, hFirst, ?_, m, n, mem, ?_, ?_⟩
      · rw [List.length_append]
        omega
      · rw [List.take_left]
        exact left
      · rw [List.drop_left]
        exact right
  · rintro ⟨cut, _, _, m, n, mem, left, right⟩
    rw [← List.take_append_drop cut word]
    exact yields_nonterminal_iff.2 ⟨_, mem, left.append right⟩

end Decomposition

/-! ## Cells -/

theorem mem_namesOfLetter {c : Char} {name : String} :
    name ∈ g.namesOfLetter c ↔ ⟨name, [.terminal c]⟩ ∈ g.productions := by
  simp only [namesOfLetter, SortedSet.mem_filterMap, Option.ite_none_right_eq_some,
    Option.some.injEq]
  constructor
  · rintro ⟨p, mem, isLetter, rfl⟩
    rw [← isLetter]
    exact mem
  · intro mem
    exact ⟨_, mem, rfl, rfl⟩

theorem mem_pairs_iff {pair : Pair} :
    pair ∈ g.pairs ↔
      ⟨pair.lhs, [.nonterminal pair.left, .nonterminal pair.right]⟩ ∈ g.productions := by
  rw [pairs, List.mem_filterMap]
  constructor
  · rintro ⟨p, mem, isPair⟩
    obtain ⟨lhs, rhs⟩ := p
    unfold pair? at isPair
    split at isPair
    · rename_i m n shape
      cases isPair
      cases shape
      exact mem
    · cases isPair
  · intro mem
    exact ⟨_, mem, rfl⟩

/-- A cell of a longer stretch holds what some pair composes of two shorter stretches. -/
theorem mem_composed_iff {chart : Chart} {length start : Nat} {name : String} :
    name ∈ composed g.pairs chart length start ↔
      ∃ cut, 1 ≤ cut ∧ cut < length ∧ ∃ m n,
        ⟨name, [.nonterminal m, .nonterminal n]⟩ ∈ g.productions ∧
          m ∈ chart.names cut start ∧ n ∈ chart.names (length - cut) (start + cut) := by
  simp only [composed, SortedSet.mem_ofList, List.mem_flatMap, List.mem_range'_1, joined,
    List.mem_filterMap, Option.ite_none_right_eq_some, Option.some.injEq, mem_pairs_iff]
  constructor
  · rintro ⟨cut, range, pair, mem, ⟨left, right⟩, rfl⟩
    exact ⟨cut, range.1, by omega, pair.left, pair.right, mem, left, right⟩
  · rintro ⟨cut, positive, below, m, n, mem, left, right⟩
    exact ⟨cut, ⟨positive, by omega⟩, ⟨name, m, n⟩, mem, ⟨left, right⟩, rfl⟩

/-! ## Rows -/

/-- A chart has as many rows as were filled. -/
theorem size_chart (word : List Char) (rows : Nat) : (g.chart word rows).size = rows := by
  induction rows with
  | zero => rfl
  | succ rows ih => rw [chart, Array.size_push, ih]

/-- Filling another row leaves the cells of earlier rows as they are. -/
theorem cell?_chart_of_le (word : List Char) {rows length start : Nat} (positive : 1 ≤ length)
    (le : length ≤ rows) :
    (g.chart word (rows + 1)).cell? length start = (g.chart word rows).cell? length start := by
  have earlier : length - 1 < (g.chart word rows).size := by
    rw [size_chart]
    omega
  rw [Chart.cell?, chart, Array.getElem?_push_lt earlier, Chart.cell?,
    Array.getElem?_eq_getElem earlier]

/-- The cells of the row that was filled last. -/
theorem cell?_chart_last (word : List Char) (rows start : Nat) :
    (g.chart word (rows + 1)).cell? (rows + 1) start =
      (g.nextRow word (g.chart word rows))[start]? := by
  have last : rows + 1 - 1 = (g.chart word rows).size := by
    rw [size_chart]
    omega
  rw [Chart.cell?, chart, last, Array.getElem?_push_size, Option.bind_some]

/-- The first row holds what is rewritten into single letters. -/
theorem nextRow_first {word : List Char} {start : Nat} (inside : start < word.length) :
    (g.nextRow word (g.chart word 0))[start]? = some (g.namesOfLetter word[start]) := by
  simp [nextRow, chart, inside]

/-- The later rows hold what pairs compose of earlier rows. -/
theorem nextRow_later {word : List Char} {rows start : Nat} (positive : 1 ≤ rows)
    (inside : start + (rows + 1) ≤ word.length) :
    (g.nextRow word (g.chart word rows))[start]? =
      some (composed g.pairs (g.chart word rows) (rows + 1) start) := by
  have later : (g.chart word rows).isEmpty = false := by
    rw [Array.isEmpty_eq_false_iff, ← Array.size_pos_iff, size_chart]
    exact positive
  have place : start < word.length + 1 - (rows + 1) := by omega
  rw [nextRow, later, if_neg Bool.false_ne_true, size_chart, List.getElem?_toArray,
    List.getElem?_map, List.getElem?_range place, Option.map_some]

/-! ## The meaning of the chart -/

/-- **Every cell is exact**: once the rows up to `rows` are filled, the chart has a cell for every
stretch of at most `rows` letters, and the cell holds the nonterminals that yield the stretch. -/
theorem IsNormal.exists_cell (normal : g.IsNormal) (word : List Char) {rows length start : Nat}
    (positive : 1 ≤ length) (le : length ≤ rows) (inside : start + length ≤ word.length) :
    ∃ cell, (g.chart word rows).cell? length start = some cell ∧
      ∀ name, name ∈ cell ↔ g.Yields [.nonterminal name] (stretch word start length) := by
  induction rows generalizing length start with
  | zero => omega
  | succ rows ih =>
    rcases Nat.lt_or_ge rows length with last | earlier
    · have same : length = rows + 1 := by omega
      subst same
      rw [cell?_chart_last]
      rcases Nat.eq_zero_or_pos rows with first | later
      · subst first
        have letter : start < word.length := by omega
        refine ⟨_, nextRow_first letter, fun name => ?_⟩
        rw [stretch_one letter, normal.yields_letter_iff, mem_namesOfLetter]
      · refine ⟨_, nextRow_later later inside, fun name => ?_⟩
        -- the cells that a split looks up are exact by induction
        have exact_names : ∀ {length start : Nat}, 1 ≤ length → length ≤ rows →
            start + length ≤ word.length → ∀ n, n ∈ (g.chart word rows).names length start ↔
              g.Yields [.nonterminal n] (stretch word start length) := by
          intro length start positive le inside n
          obtain ⟨cell, found, exact_cell⟩ := ih positive le inside
          rw [Chart.names, found, Option.getD_some, exact_cell]
        have size := length_stretch inside
        rw [mem_composed_iff, normal.yields_long_iff (by omega), size]
        refine exists_congr fun cut => and_congr_right fun atLeast => and_congr_right fun below => ?_
        rw [take_stretch (Nat.le_of_lt below), drop_stretch]
        refine exists_congr fun m => exists_congr fun n => and_congr_right fun _ => ?_
        rw [exact_names atLeast (by omega) (by omega), exact_names (by omega) (by omega) (by omega)]
    · rw [cell?_chart_of_le word positive earlier]
      exact ih positive earlier inside

/-- The chart of a word tells whether the start yields it. -/
theorem IsNormal.generatesByChart_iff (normal : g.IsNormal) (word : List Char) :
    g.generatesByChart word = true ↔ g.Yields [.nonterminal g.start] word := by
  unfold generatesByChart
  split
  · rename_i empty
    rw [List.isEmpty_iff.1 empty, decide_eq_true_iff, mem_alternatives, normal.yields_nil_iff]
  · rename_i nonempty
    have positive : 1 ≤ word.length := by
      rw [List.isEmpty_iff] at nonempty
      exact List.length_pos_iff.2 nonempty
    obtain ⟨cell, found, exact_cell⟩ :=
      normal.exists_cell word positive (Nat.le_refl _) (Nat.le_of_eq (Nat.zero_add _))
    rw [decide_eq_true_iff, Chart.names, found, Option.getD_some, exact_cell, stretch_whole]

/-! ## Deciding membership -/

/-- A production is the **first violation** of the normal form when it does not conform and all
productions listed before it do. -/
def FirstViolation (g : Grammar) (p : Production) : Prop :=
  ¬ g.Conforms p ∧
    ∃ before after, g.productions.toList = before ++ p :: after ∧ ∀ q ∈ before, g.Conforms q

/-- The first violation is found. -/
theorem firstNonconforming_eq_some_iff {p : Production} :
    g.firstNonconforming = some p ↔ g.FirstViolation p := by
  rw [firstNonconforming, List.find?_eq_some_iff_append, FirstViolation]
  simp only [Bool.not_eq_true', decide_eq_false_iff_not, Bool.not_not, decide_eq_true_eq]

/-- **Membership is decided**: outside of normal form the first violation is reported, and in normal
form the answer tells whether the word belongs to the language. -/
theorem decideMembership_iff (g : Grammar) (word : List Char) :
    (¬ g.IsNormal ↔ ∃ p, g.FirstViolation p ∧
      g.decideMembership word = .error ⟨.production p, .notNormal⟩) ∧
    (g.IsNormal ↔ ∃ answer, g.decideMembership word = .ok answer ∧
      (answer = true ↔ g.Language word)) := by
  rw [← firstNonconforming_eq_none_iff, decideMembership]
  cases found : g.firstNonconforming with
  | none =>
    have normal := firstNonconforming_eq_none_iff.1 found
    refine ⟨by simp, iff_of_true rfl ⟨_, rfl, ?_⟩⟩
    rw [normal.generatesByChart_iff, language_iff]
  | some p =>
    refine ⟨iff_of_true (by simp) ⟨p, firstNonconforming_eq_some_iff.1 found, rfl⟩, ?_⟩
    simp

end Grammar

end FormalLanguages
