import FormalLanguages.Proofs.Grammar.Chart

/-! # The chart within its bounds

The cells of a chart can be filled in place, in a table with one row for each position of the word:
for each length in turn, every position gets one more cell at the end of its row. The cells that are
looked up on the way lie in rows that have been filled to different extents, at positions and lengths
that come from sums and differences. `Grammar.table?` fills such a table with every index and every
difference checked, and gives up at the first one that is out of bounds. This never happens: at each
moment the table holds what the chart holds of the stretches that have had their turn
(`Grammar.tableAt`), and what is looked up is among them (`Grammar.extend?_tableAt`). -/

namespace FormalLanguages

/-! ## Checked steps -/

/-- The difference of two numbers, if it does not fall below zero. -/
def difference? (m n : Nat) : Option Nat := if n ≤ m then some (m - n) else none

theorem difference?_eq_some {m n : Nat} (le : n ≤ m) : difference? m n = some (m - n) := if_pos le

theorem difference?_eq_some_iff {m n d : Nat} : difference? m n = some d ↔ n ≤ m ∧ m - n = d := by
  rw [difference?, Option.ite_none_right_eq_some, Option.some.injEq]

/-- If a function succeeds on all elements of a list, so does going through the list with it. -/
theorem mapM_eq_some_of_forall {α β : Type} {f : α → Option β} {value : α → β} {l : List α}
    (succeeds : ∀ a ∈ l, f a = some (value a)) : l.mapM f = some (l.map value) := by
  induction l with
  | nil => rfl
  | cons a rest ih =>
    have tail := ih fun b hb => succeeds b (List.mem_cons_of_mem _ hb)
    rw [List.mapM_cons, succeeds a List.mem_cons_self, tail]
    rfl

/-- If every step of a count leads from one state to the next, counting leads to the last. -/
theorem foldlM_range_eq_some {σ : Type} {f : σ → Nat → Option σ} {state : Nat → σ} {n : Nat}
    (step : ∀ i < n, f (state i) i = some (state (i + 1))) :
    (List.range n).foldlM f (state 0) = some (state n) := by
  induction n with
  | zero => rfl
  | succ n ih =>
    have earlier := ih fun i hi => step i (Nat.lt_succ_of_lt hi)
    rw [List.range_succ, List.foldlM_append, earlier, Option.bind_eq_bind, Option.bind_some,
      List.foldlM_cons, step n (Nat.lt_succ_self n)]
    rfl

/-- A **table**: row `start` holds the nonterminals for the stretches of a word that begin at position
`start`, from a single letter on, as far as the row has been filled. -/
abbrev Table := Array (Array (SortedSet String))

/-- The cell for the `length` letters from position `start` on, if the table has it. -/
def Table.lookUp? (table : Table) (start length : Nat) : Option (SortedSet String) := do
  let row ← table[start]?
  let index ← difference? length 1
  row[index]?

/-- The table with one more cell at the end of the row of a position, if there is such a row. -/
def Table.push? (table : Table) (start : Nat) (cell : SortedSet String) : Option Table := do
  let row ← table[start]?
  return table.setIfInBounds start (row.push cell)

namespace Grammar

/-! ## Filling a table in place -/

/-- The left-hand sides of the pairs that fit both parts of a split. -/
def joinedAt? (pairs : List Pair) (table : Table) (length start cut : Nat) :
    Option (List String) := do
  let left ← table.lookUp? start cut
  let remaining ← difference? length cut
  let right ← table.lookUp? (start + cut) remaining
  return joined pairs left right

/-- The nonterminals that derive the `length` letters from position `start` on. -/
def cellFor? (g : Grammar) (word : List Char) (length : Nat) (table : Table) (start : Nat) :
    Option (SortedSet String) :=
  if length = 1 then word[start]?.map g.namesOfLetter
  else do
    let parts ← (List.range' 1 (length - 1)).mapM (joinedAt? g.pairs table length start)
    return SortedSet.ofList parts.flatten

/-- Fills in the cell for the `length` letters from position `start` on. -/
def extend? (g : Grammar) (word : List Char) (length : Nat) (table : Table) (start : Nat) :
    Option Table := do
  let cell ← g.cellFor? word length table start
  table.push? start cell

/-- The **table of a word** for the stretches of at most `length` letters. -/
def table? (g : Grammar) (word : List Char) : (length : Nat) → Option Table
  | 0 => some (Array.replicate word.length #[])
  | length + 1 => do
    let earlier ← g.table? word length
    let last ← difference? word.length (length + 1)
    (List.range (last + 1)).foldlM (g.extend? word (length + 1)) earlier

/-- Whether a grammar in normal form generates a word, read off the table of the word. -/
def generatesByTable? (g : Grammar) (word : List Char) : Option Bool :=
  if word.isEmpty then some (decide ([] ∈ g.alternatives g.start))
  else do
    let table ← g.table? word word.length
    let whole ← table.lookUp? 0 word.length
    return decide (g.start ∈ whole)

/-! ## The extent of a chart -/

section Extent

variable (g : Grammar) (word : List Char)

/-- Each row is one cell shorter than the row before. -/
theorem size_nextRow (rows : Nat) :
    (g.nextRow word (g.chart word rows)).size = word.length - rows := by
  cases rows with
  | zero => simp [nextRow, chart]
  | succ rows =>
    have later : (g.chart word (rows + 1)).isEmpty = false := by
      rw [Array.isEmpty_eq_false_iff, ← Array.size_pos_iff, size_chart]
      exact Nat.succ_pos rows
    rw [nextRow, later, if_neg Bool.false_ne_true, size_chart, List.size_toArray, List.length_map,
      List.length_range]
    omega

/-- **The extent of a chart**: it has a cell for every stretch that is no longer than its number of
rows and lies inside of the word, and no other cells. -/
theorem exists_cell?_eq_some_iff {rows length start : Nat} (positive : 1 ≤ length) :
    (∃ cell, (g.chart word rows).cell? length start = some cell) ↔
      length ≤ rows ∧ start + length ≤ word.length := by
  induction rows with
  | zero =>
    constructor
    · rintro ⟨cell, found⟩
      cases found
    · omega
  | succ rows ih =>
    rcases Nat.lt_trichotomy length (rows + 1) with earlier | last | beyond
    · rw [cell?_chart_of_le word positive (by omega), ih]
      omega
    · subst last
      rw [cell?_chart_last]
      constructor
      · rintro ⟨cell, found⟩
        obtain ⟨inside, _⟩ := Array.getElem?_eq_some_iff.1 found
        rw [size_nextRow] at inside
        omega
      · rintro ⟨_, inside⟩
        have place : start < (g.nextRow word (g.chart word rows)).size := by
          rw [size_nextRow]
          omega
        exact ⟨_, Array.getElem?_eq_getElem place⟩
    · have outside : (g.chart word (rows + 1)).size ≤ length - 1 := by
        rw [size_chart]
        omega
      rw [Chart.cell?, Array.getElem?_eq_none outside]
      constructor
      · rintro ⟨cell, found⟩
        cases found
      · omega

end Extent

/-! ## The cells of a finished chart -/

section Cells

variable {g : Grammar} {word : List Char} {length start : Nat}

/-- Filling further rows leaves the cells of earlier rows as they are. -/
theorem cell?_chart_of_le_of_le {rows more : Nat} (positive : 1 ≤ length) (filled : length ≤ rows)
    (le : rows ≤ more) :
    (g.chart word more).cell? length start = (g.chart word rows).cell? length start := by
  induction le with
  | refl => rfl
  | step le ih =>
    rw [cell?_chart_of_le word positive (Nat.le_trans filled le), ih]

/-- A cell is composed alike from charts that have the same shorter stretches. -/
theorem composed_congr {pairs : List Pair} {chart other : Chart}
    (same : ∀ part position, 1 ≤ part → part < length →
      chart.names part position = other.names part position) :
    composed pairs chart length start = composed pairs other length start := by
  refine congrArg SortedSet.ofList (List.flatMap_congr fun cut inside => ?_)
  obtain ⟨atLeast, atMost⟩ := List.mem_range'_1.1 inside
  rw [same cut start atLeast (by omega), same (length - cut) (start + cut) (by omega) (by omega)]

/-- A chart holds what is rewritten into single letters. -/
theorem names_chart_letter (inside : start < word.length) :
    (g.chart word word.length).names 1 start = g.namesOfLetter word[start] := by
  rw [Chart.names, cell?_chart_of_le_of_le (Nat.le_refl 1) (Nat.le_refl 1) (by omega),
    cell?_chart_last, nextRow_first inside, Option.getD_some]

/-- A chart holds what pairs compose of its own cells. -/
theorem names_chart_composed (long : 2 ≤ length) (inside : start + length ≤ word.length) :
    (g.chart word word.length).names length start =
      composed g.pairs (g.chart word word.length) length start := by
  obtain ⟨rows, rfl⟩ : ∃ rows, length = rows + 1 := ⟨length - 1, by omega⟩
  rw [Chart.names, cell?_chart_of_le_of_le (by omega) (Nat.le_refl _) (by omega), cell?_chart_last,
    nextRow_later (by omega) inside, Option.getD_some]
  refine composed_congr fun part position positive below => ?_
  have filled : part ≤ rows := Nat.le_of_lt_succ below
  have within : rows ≤ word.length := by omega
  rw [Chart.names, Chart.names, cell?_chart_of_le_of_le positive filled within]

end Cells

/-! ## Nothing is out of bounds -/

section Bounds

/-- How many cells a row has got when the positions before `start` have had their turn with `length`,
and the others with the lengths before. No row goes beyond the end of the word. -/
def extent (size length start row : Nat) : Nat :=
  min (if row < start then length else length - 1) (size - row)

/-- The first `count` cells for the stretches from position `row` on. -/
def rowUpTo (g : Grammar) (word : List Char) (row count : Nat) : Array (SortedSet String) :=
  Array.ofFn fun index : Fin count => (g.chart word word.length).names (index + 1) row

/-- The table when the positions before `start` have had their turn with `length`, and the others with
the lengths before. -/
def tableAt (g : Grammar) (word : List Char) (length start : Nat) : Table :=
  Array.ofFn fun row : Fin word.length => g.rowUpTo word row (extent word.length length start row)

variable {g : Grammar} {word : List Char} {length start : Nat}

theorem push_rowUpTo (g : Grammar) (word : List Char) (row count : Nat) :
    (g.rowUpTo word row count).push ((g.chart word word.length).names (count + 1) row) =
      g.rowUpTo word row (count + 1) := by
  rw [rowUpTo, rowUpTo, Array.ofFn_succ]
  rfl

theorem getElem?_rowUpTo (row count index : Nat) :
    (g.rowUpTo word row count)[index]? =
      if index < count then some ((g.chart word word.length).names (index + 1) row) else none :=
  Array.getElem?_ofFn

theorem getElem?_tableAt (row : Nat) :
    (g.tableAt word length start)[row]? =
      if row < word.length then some (g.rowUpTo word row (extent word.length length start row))
      else none :=
  Array.getElem?_ofFn

/-- What can be looked up is what has had its turn. -/
theorem lookUp?_tableAt_eq_some_iff {row part : Nat} {cell : SortedSet String} :
    (g.tableAt word length start).lookUp? row part = some cell ↔
      (1 ≤ part ∧ part ≤ extent word.length length start row) ∧
        (g.chart word word.length).names part row = cell := by
  simp only [Table.lookUp?, Option.bind_eq_bind, Option.bind_eq_some_iff, getElem?_tableAt,
    difference?_eq_some_iff, Option.ite_none_right_eq_some, Option.some.injEq]
  constructor
  · rintro ⟨_, ⟨_, rfl⟩, _, ⟨positive, rfl⟩, found⟩
    rw [getElem?_rowUpTo, Option.ite_none_right_eq_some, Option.some.injEq,
      Nat.sub_add_cancel positive] at found
    exact ⟨⟨positive, by omega⟩, found.2⟩
  · rintro ⟨⟨positive, filled⟩, rfl⟩
    have inside : row < word.length := by
      unfold extent at filled
      omega
    refine ⟨_, ⟨inside, rfl⟩, _, ⟨positive, rfl⟩, ?_⟩
    rw [getElem?_rowUpTo, if_pos (by omega), Nat.sub_add_cancel positive]

/-- With the cell of its turn at the end of its row, the next position can have its turn. -/
theorem push?_tableAt (positive : 1 ≤ length) (inside : start + length ≤ word.length) :
    (g.tableAt word length start).push? start ((g.chart word word.length).names length start) =
      some (g.tableAt word length (start + 1)) := by
  have place : start < word.length := by omega
  have before : extent word.length length start start + 1 = length := by
    rw [extent, if_neg (Nat.lt_irrefl start)]
    omega
  have after : extent word.length length (start + 1) start = length := by
    rw [extent, if_pos (Nat.lt_succ_self start)]
    omega
  have grown := g.push_rowUpTo word start (extent word.length length start start)
  rw [before] at grown
  rw [Table.push?, getElem?_tableAt, if_pos place, Option.bind_eq_bind, Option.bind_some, grown]
  refine congrArg some (Array.ext_getElem? fun row => ?_)
  rw [Array.getElem?_setIfInBounds, getElem?_tableAt]
  split
  · rename_i same
    subst same
    have size : (g.tableAt word length start).size = word.length := Array.size_ofFn
    rw [if_pos (by omega), getElem?_tableAt, if_pos place, after]
  · rename_i other
    have same : extent word.length length (start + 1) row = extent word.length length start row := by
      unfold extent
      split <;> split <;> omega
    rw [getElem?_tableAt, same]

/-- When all positions that have a stretch of `length` letters have had their turn, the next length
begins. -/
theorem tableAt_turn (positive : 1 ≤ length) :
    g.tableAt word length (word.length + 1 - length) = g.tableAt word (length + 1) 0 := by
  refine Array.ext_getElem? fun row => ?_
  have same : extent word.length length (word.length + 1 - length) row =
      extent word.length (length + 1) 0 row := by
    unfold extent
    split <;> split <;> omega
  rw [getElem?_tableAt, getElem?_tableAt, same]

/-- A split can be looked up: both of its parts have had their turn. -/
theorem joinedAt?_tableAt {pairs : List Pair} {cut : Nat} (positive : 1 ≤ cut) (below : cut < length)
    (inside : start + length ≤ word.length) :
    joinedAt? pairs (g.tableAt word length start) length start cut =
      some (joined pairs ((g.chart word word.length).names cut start)
        ((g.chart word word.length).names (length - cut) (start + cut))) := by
  have left : (g.tableAt word length start).lookUp? start cut =
      some ((g.chart word word.length).names cut start) := by
    refine lookUp?_tableAt_eq_some_iff.2 ⟨⟨positive, ?_⟩, rfl⟩
    unfold extent
    split <;> omega
  have right : (g.tableAt word length start).lookUp? (start + cut) (length - cut) =
      some ((g.chart word word.length).names (length - cut) (start + cut)) := by
    refine lookUp?_tableAt_eq_some_iff.2 ⟨⟨by omega, ?_⟩, rfl⟩
    unfold extent
    split <;> omega
  simp only [joinedAt?, left, difference?_eq_some (Nat.le_of_lt below), right, Option.bind_eq_bind,
    Option.bind_some, Option.pure_def]

/-- **A cell can be filled** when its turn has come, with what the chart holds. -/
theorem cellFor?_tableAt (positive : 1 ≤ length) (inside : start + length ≤ word.length) :
    g.cellFor? word length (g.tableAt word length start) start =
      some ((g.chart word word.length).names length start) := by
  unfold cellFor?
  split
  · rename_i single
    subst single
    have place : start < word.length := by omega
    rw [names_chart_letter place, List.getElem?_eq_getElem place, Option.map_some]
  · have parts : ∀ cut ∈ List.range' 1 (length - 1),
        joinedAt? g.pairs (g.tableAt word length start) length start cut =
          some (joined g.pairs ((g.chart word word.length).names cut start)
            ((g.chart word word.length).names (length - cut) (start + cut))) := by
      intro cut range
      obtain ⟨atLeast, atMost⟩ := List.mem_range'_1.1 range
      exact joinedAt?_tableAt atLeast (by omega) inside
    rw [names_chart_composed (by omega) inside, mapM_eq_some_of_forall parts]
    rfl

/-- **A turn stays within the bounds** and makes it the turn of the next position. -/
theorem extend?_tableAt (positive : 1 ≤ length) (inside : start + length ≤ word.length) :
    g.extend? word length (g.tableAt word length start) start =
      some (g.tableAt word length (start + 1)) := by
  rw [extend?, cellFor?_tableAt positive inside, Option.bind_eq_bind, Option.bind_some,
    push?_tableAt positive inside]

/-- **Filling a table stays within its bounds**, as long as there are stretches to fill in. -/
theorem table?_eq_some (le : length ≤ word.length) :
    g.table? word length = some (g.tableAt word (length + 1) 0) := by
  induction length with
  | zero =>
    refine congrArg some (Array.ext_getElem? fun row => ?_)
    have empty : extent word.length (0 + 1) 0 row = 0 := by
      unfold extent
      split <;> omega
    rw [getElem?_tableAt, empty, Array.getElem?_replicate]
    rfl
  | succ length ih =>
    have turns : ∀ start < word.length - (length + 1) + 1,
        g.extend? word (length + 1) (g.tableAt word (length + 1) start) start =
          some (g.tableAt word (length + 1) (start + 1)) :=
      fun start below => extend?_tableAt (Nat.succ_pos length) (by omega)
    have last : word.length - (length + 1) + 1 = word.length + 1 - (length + 1) := by omega
    simp only [table?, ih (Nat.le_of_succ_le le), difference?_eq_some le, Option.bind_eq_bind,
      Option.bind_some]
    rw [foldlM_range_eq_some turns, last, tableAt_turn (Nat.succ_pos length)]

/-- After the last turn with a length, the table has the cells of the chart. -/
theorem lookUp?_tableAt_turn {part : Nat} (le : length ≤ word.length) (positive : 1 ≤ part) :
    (g.tableAt word (length + 1) 0).lookUp? start part = (g.chart word length).cell? part start := by
  have reached : part ≤ extent word.length (length + 1) 0 start ↔
      part ≤ length ∧ start + part ≤ word.length := by
    unfold extent
    split <;> omega
  have names : ∀ cell, (g.chart word length).cell? part start = some cell → part ≤ length →
      (g.chart word word.length).names part start = cell := by
    intro cell found short
    rw [Chart.names, cell?_chart_of_le_of_le positive short le, found, Option.getD_some]
  ext cell
  rw [lookUp?_tableAt_eq_some_iff, reached]
  constructor
  · rintro ⟨⟨_, short, inside⟩, rfl⟩
    obtain ⟨cell, found⟩ := (exists_cell?_eq_some_iff g word positive).2 ⟨short, inside⟩
    rw [names cell found short, found]
  · intro found
    have spot := (exists_cell?_eq_some_iff g word positive).1 ⟨cell, found⟩
    exact ⟨⟨positive, spot⟩, names cell found spot.1⟩

/-- **Deciding by a table stays within its bounds**, and the answer is that of the chart. -/
theorem generatesByTable?_eq_some (g : Grammar) (word : List Char) :
    g.generatesByTable? word = some (g.generatesByChart word) := by
  unfold generatesByTable? generatesByChart
  split
  · rfl
  · rename_i nonempty
    have positive : 1 ≤ word.length := by
      rw [List.isEmpty_iff] at nonempty
      exact List.length_pos_iff.2 nonempty
    obtain ⟨whole, found⟩ : ∃ cell, (g.chart word word.length).cell? word.length 0 = some cell :=
      (exists_cell?_eq_some_iff g word positive).2 ⟨Nat.le_refl _, by omega⟩
    have same : (g.tableAt word (word.length + 1) 0).lookUp? 0 word.length = some whole := by
      rw [lookUp?_tableAt_turn (Nat.le_refl _) positive, found]
    rw [table?_eq_some (Nat.le_refl _), Chart.names, found]
    simp only [Option.bind_eq_bind, Option.bind_some, same]
    rfl

end Bounds

/-- **The table of a word is filled safely and exactly**: no look-up on the way to the decision is out
of bounds, and no difference falls below zero. When all stretches of up to `length` letters have been
filled in, the table has the cells of the chart: one for each stretch that is no longer and lies inside
of the word, and no other; the cell holds the nonterminals that generate the stretch. -/
theorem IsNormal.table_exact {g : Grammar} (normal : g.IsNormal) (word : List Char) :
    (∃ answer, g.generatesByTable? word = some answer ∧ g.decideMembership word = .ok answer) ∧
      ∀ length, length ≤ word.length → ∃ table, g.table? word length = some table ∧
        ∀ start part, 1 ≤ part →
          table.lookUp? start part = (g.chart word length).cell? part start ∧
          ((∃ cell, table.lookUp? start part = some cell) ↔
            part ≤ length ∧ start + part ≤ word.length) ∧
          ∀ cell, table.lookUp? start part = some cell →
            ∀ name, name ∈ cell ↔ g.Generates name (stretch word start part) := by
  refine ⟨⟨g.generatesByChart word, generatesByTable?_eq_some g word, ?_⟩, ?_⟩
  · rw [decideMembership, firstNonconforming_eq_none_iff.2 normal]
  · intro length le
    refine ⟨_, table?_eq_some le, fun start part positive => ?_⟩
    rw [lookUp?_tableAt_turn le positive]
    refine ⟨rfl, exists_cell?_eq_some_iff g word positive, fun cell found name => ?_⟩
    obtain ⟨short, inside⟩ := (exists_cell?_eq_some_iff g word positive).1 ⟨cell, found⟩
    obtain ⟨_, same, members⟩ := normal.exists_cell word positive short inside
    rw [found, Option.some.injEq] at same
    rw [same, generates_iff]
    exact members name

/-- A grammar in normal form in which the start encloses itself between two letters. -/
def enclosing : Grammar where
  start := "S"
  nonterminals := .ofList ["S", "A", "B", "X"]
  terminals := .ofList ['a', 'b']
  productions := .ofList [
    ⟨"S", [.nonterminal "A", .nonterminal "B"]⟩, ⟨"S", [.nonterminal "A", .nonterminal "X"]⟩,
    ⟨"X", [.nonterminal "S", .nonterminal "B"]⟩, ⟨"A", [.terminal 'a']⟩, ⟨"B", [.terminal 'b']⟩]

/-- When the stretches of two letters of `aabb` have been filled in, the table tells what is in the
middle of the word, but has no cell for three letters yet, nor one for two letters that begin at the
end. -/
theorem IsNormal.table_exact_enclosing :
    enclosing.IsNormal ∧ enclosing.generatesByTable? ['a', 'a', 'b', 'b'] = some true ∧
      enclosing.Generates "S" ['a', 'b'] ∧
      ∃ table, enclosing.table? ['a', 'a', 'b', 'b'] 2 = some table ∧
        table.lookUp? 1 2 = some {"S"} ∧ (¬ ∃ cell, table.lookUp? 0 3 = some cell) ∧
        ¬ ∃ cell, table.lookUp? 3 2 = some cell := by
  have normal : enclosing.IsNormal := by decide +kernel
  obtain ⟨⟨answer, checked, decided⟩, lengths⟩ := normal.table_exact ['a', 'a', 'b', 'b']
  obtain ⟨table, filled, cells⟩ := lengths 2 (by decide)
  have middle : (enclosing.chart ['a', 'a', 'b', 'b'] 2).cell? 2 1 = some {"S"} := by
    decide +kernel
  rw [← (cells 1 2 (by decide)).1] at middle
  have yes : enclosing.decideMembership ['a', 'a', 'b', 'b'] = .ok true := by decide +kernel
  rw [decided] at yes
  cases yes
  refine ⟨normal, checked, ?_, table, filled, middle, fun found => ?_, fun found => ?_⟩
  · exact ((cells 1 2 (by decide)).2.2 _ middle "S").1 (by decide)
  · exact absurd ((cells 0 3 (by decide)).2.1.1 found) (by decide)
  · exact absurd ((cells 3 2 (by decide)).2.1.1 found) (by decide)

end Grammar

end FormalLanguages
