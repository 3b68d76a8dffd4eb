import Mathlib.Data.List.Basic
import SuiteMetrics.Render.Format
import SuiteMetrics.Render.Markdown.Reader

/-!
Tables of Markdown that keep their shape.

The writer puts the text of a value between two bars as it is. What is read between the bars is the
text again if it has no bar and no line break (`cells_body_eq_iff`, `textLines_line`). No other text
is read back: a bar that stands alone parts a cell in two, a bar behind a backslash loses the
backslash (`pieces_eq_singleton_iff`), and what is read has no line break (`plain_read`). So a table
is read as what it says just if no value has a bar or a line break in it (`read_table_iff`). Titles
have none if the keys have none, as no capital is one (`special_title`).
-/

namespace SuiteMetrics.Render.Markdown

open Json (Value Fields)

/-! ### Pieces -/

theorem prepend_ne_nil (c : Char) (parts : List (List Char)) : prepend c parts ≠ [] := by
  cases parts with
  | nil => exact List.cons_ne_nil _ _
  | cons part parts => exact List.cons_ne_nil _ _

theorem prepend_append (c : Char) {parts : List (List Char)} (some_ : parts ≠ [])
    (more : List (List Char)) : prepend c parts ++ more = prepend c (parts ++ more) := by
  cases parts with
  | nil => exact absurd rfl some_
  | cons part parts => rfl

theorem prepend_eq_singleton {c : Char} {parts : List (List Char)} (some_ : parts ≠ [])
    {piece : List Char} (h : prepend c parts = [piece]) :
    ∃ part, parts = [part] ∧ piece = c :: part := by
  cases parts with
  | nil => exact absurd rfl some_
  | cons part parts =>
      obtain ⟨rfl, rfl⟩ := List.cons.inj h
      exact ⟨part, rfl, rfl⟩

theorem flatten_prepend (c : Char) (parts : List (List Char)) :
    (prepend c parts).flatten = c :: parts.flatten := by
  cases parts with
  | nil => rfl
  | cons part parts => rfl

theorem pieces_ne_nil (s : List Char) : pieces s ≠ [] := by
  fun_cases pieces s with
  | case1 => exact List.cons_ne_nil _ _
  | case2 r => exact prepend_ne_nil _ _
  | case3 r => exact List.cons_ne_nil _ _
  | case4 c r => exact prepend_ne_nil _ _

/-- Pieces are made of the characters of their line. -/
theorem flatten_pieces (s : List Char) : (pieces s).flatten.Sublist s := by
  fun_induction pieces s with
  | case1 => exact .slnil
  | case2 s ih =>
      rw [flatten_prepend]
      exact (ih.cons_cons _).cons _
  | case3 s ih => exact ih.cons _
  | case4 c s noEscape noBar ih =>
      rw [flatten_prepend]
      exact ih.cons_cons _

/-- A character that is no bar, and no backslash in front of one, belongs to the first piece. -/
theorem pieces_cons {c : Char} (noBar : c ≠ '|') {s : List Char}
    (noEscape : c = '\\' → s.head? ≠ some '|') : pieces (c :: s) = prepend c (pieces s) := by
  rw [pieces]
  · intro r backslash bar
    exact noEscape backslash (bar ▸ rfl)
  · exact noBar

/-- A line without a bar is one piece, and no other line is a piece of itself. -/
theorem pieces_eq_singleton_iff {s : List Char} : pieces s = [s] ↔ '|' ∉ s := by
  fun_induction pieces s with
  | case1 => exact iff_of_true rfl List.not_mem_nil
  | case2 s ih =>
      refine iff_of_false (fun single => ?_) fun plain => plain (by simp)
      obtain ⟨part, -, same⟩ := prepend_eq_singleton (pieces_ne_nil s) single
      exact absurd (List.cons.inj same).1 (by decide)
  | case3 s ih =>
      exact iff_of_false (fun single => pieces_ne_nil s (List.cons.inj single).2)
        fun plain => plain List.mem_cons_self
  | case4 c s noEscape noBar ih =>
      have here : '|' ∉ c :: s ↔ '|' ∉ s := by
        rw [List.mem_cons, not_or]
        exact and_iff_right fun same => noBar same.symm
      rw [here, ← ih]
      constructor
      · intro single
        obtain ⟨part, alone, same⟩ := prepend_eq_singleton (pieces_ne_nil s) single
        rw [alone, (List.cons.inj same).2]
      · intro alone
        rw [alone]
        rfl

/-- A character that begins no escape still begins none when a blank follows. -/
theorem plain_append_blank {c : Char} {s : List Char}
    (noEscape : ∀ r, c = '\\' → s = '|' :: r → False) (t : List Char) :
    c = '\\' → (s ++ ' ' :: t).head? ≠ some '|' := by
  rintro rfl
  cases s with
  | nil => simp
  | cons d s =>
      intro bar
      exact noEscape s rfl (Option.some.inj bar ▸ rfl)

/-- A bar behind a blank ends a piece. -/
theorem pieces_append (s r : List Char) :
    pieces (s ++ ' ' :: '|' :: r) = pieces (s ++ [' ']) ++ pieces r := by
  fun_induction pieces s with
  | case1 => rfl
  | case2 s ih =>
      change prepend '|' (pieces (s ++ _)) = prepend '|' (pieces (s ++ _)) ++ _
      rw [ih, prepend_append _ (pieces_ne_nil _)]
  | case3 s ih =>
      change [] :: pieces (s ++ _) = [] :: pieces (s ++ _) ++ _
      rw [ih, List.cons_append]
  | case4 c s noEscape noBar ih =>
      rw [List.cons_append, List.cons_append, pieces_cons noBar (plain_append_blank noEscape _),
        pieces_cons noBar (plain_append_blank noEscape _), ih, prepend_append _ (pieces_ne_nil _)]

/-- A blank at the end belongs to the last piece. -/
theorem exists_piece_of_blank {s piece : List Char} (h : pieces (s ++ [' ']) = [piece]) :
    ∃ rest, piece = rest ++ [' '] ∧ pieces s = [rest] := by
  fun_induction pieces s generalizing piece with
  | case1 =>
      obtain rfl : [' '] = piece := (List.cons.inj h).1
      exact ⟨[], rfl, rfl⟩
  | case2 s ih =>
      obtain ⟨part, single, rfl⟩ := prepend_eq_singleton (pieces_ne_nil _) h
      obtain ⟨rest, rfl, alone⟩ := ih single
      exact ⟨'|' :: rest, rfl, alone ▸ rfl⟩
  | case3 s ih => exact absurd (List.cons.inj h).2 (pieces_ne_nil _)
  | case4 c s noEscape noBar ih =>
      rw [List.cons_append, pieces_cons noBar (plain_append_blank noEscape _)] at h
      obtain ⟨part, single, rfl⟩ := prepend_eq_singleton (pieces_ne_nil _) h
      obtain ⟨rest, rfl, alone⟩ := ih single
      exact ⟨c :: rest, rfl, alone ▸ rfl⟩

/-! ### Rows -/

/-- A cell between its blanks. -/
def padded (cell : List Char) : List Char := ' ' :: cell ++ [' ']

theorem unpad_padded (cell : List Char) : unpad (padded cell) = cell := by
  have back : (cell ++ [' ']).reverse = ' ' :: cell.reverse := by simp
  change (dropBlank (cell ++ [' ']).reverse).reverse = cell
  rw [back]
  exact List.reverse_reverse cell

/-- A written cell is read as itself just if it has no bar. -/
theorem map_unpad_pieces_iff {cell : List Char} :
    (pieces (padded cell)).map unpad = [cell] ↔ '|' ∉ cell := by
  rw [← pieces_eq_singleton_iff]
  constructor
  · intro single
    obtain ⟨piece, alone, text⟩ := List.map_eq_singleton_iff.mp single
    have front : pieces (padded cell) = prepend ' ' (pieces (cell ++ [' '])) :=
      pieces_cons (by decide) fun same => absurd same (by decide)
    obtain ⟨part, body, rfl⟩ := prepend_eq_singleton (pieces_ne_nil _) (front ▸ alone)
    obtain ⟨rest, rfl, inner⟩ := exists_piece_of_blank body
    rw [inner, ← text]
    exact congrArg (fun s => [s]) (unpad_padded rest).symm
  · intro alone
    have plain : '|' ∉ padded cell := by
      simpa [padded] using pieces_eq_singleton_iff.mp alone
    rw [pieces_eq_singleton_iff.mpr plain, List.map_singleton, unpad_padded]

/-- The characters of a line behind its first bar. -/
def body (row : List (List Char)) : List Char := row.flatMap fun cell => padded cell ++ ['|']

theorem pieces_body (row : List (List Char)) :
    pieces (body row) = (row.flatMap fun cell => pieces (padded cell)) ++ [[]] := by
  induction row with
  | nil => rfl
  | cons cell row ih =>
      have first : body (cell :: row) = (' ' :: cell) ++ ' ' :: '|' :: body row := by
        simp [body, padded]
      rw [first, pieces_append, ih, List.flatMap_cons, List.append_assoc]
      rfl

theorem cells_body (row : List (List Char)) :
    cells ('|' :: body row) = (row.flatMap fun cell => pieces (padded cell)).map unpad := by
  rw [cells, dropBar, pieces_body]
  simp

/-- Each cell of a row takes at least one of the cells that are read. -/
theorem length_le_flatMap (row : List (List Char)) :
    row.length ≤ (row.flatMap fun cell => pieces (padded cell)).length := by
  induction row with
  | nil => exact Nat.le_refl 0
  | cons cell row ih =>
      have pos := List.length_pos_iff.mpr (pieces_ne_nil (padded cell))
      rw [List.flatMap_cons, List.length_append, List.length_cons]
      omega

/-- A written row is read as its cells just if none of them has a bar. -/
theorem cells_body_eq_iff {row : List (List Char)} :
    cells ('|' :: body row) = row ↔ ∀ cell ∈ row, '|' ∉ cell := by
  rw [cells_body]
  induction row with
  | nil => simp
  | cons cell row ih =>
      rw [List.forall_mem_cons, ← ih, ← map_unpad_pieces_iff, List.flatMap_cons, List.map_append]
      constructor
      · intro same
        have lengths := congrArg List.length same
        have pos := List.length_pos_iff.mpr (pieces_ne_nil (padded cell))
        have rest := length_le_flatMap row
        rw [List.length_append, List.length_map, List.length_map, List.length_cons] at lengths
        exact List.append_inj (same.trans (List.singleton_append).symm) (by
          rw [List.length_map, List.length_singleton]
          omega)
      · rintro ⟨first, rest⟩
        rw [first, rest]
        rfl

/-! ### Lines -/

/-- The character ends a line, or is one half of a line end. -/
def breaksLine (c : Char) : Bool := c == '\n' || c == '\r'

theorem textLines_cons {c : Char} (plain : breaksLine c = false) (s : List Char) :
    textLines (c :: s) = prepend c (textLines s) := by
  simp only [breaksLine, Bool.or_eq_false_iff, beq_eq_false_iff_ne] at plain
  rw [textLines]
  · intro r same
    exact absurd same plain.2
  · exact plain.2
  · exact plain.1

/-- A line that has no line break and ends is a line of its own. -/
theorem textLines_line {line : List Char} (plain : ∀ c ∈ line, breaksLine c = false)
    (s : List Char) : textLines (line ++ '\n' :: s) = line :: textLines s := by
  induction line with
  | nil => rfl
  | cons c line ih =>
      obtain ⟨here, later⟩ := List.forall_mem_cons.mp plain
      rw [List.cons_append, textLines_cons here, ih later]
      rfl

/-- There is no line break in a line. -/
theorem plain_textLines (s : List Char) : ∀ c ∈ (textLines s).flatten, breaksLine c = false := by
  fun_induction textLines s with
  | case1 => simp
  | case2 s ih => exact ih
  | case3 s noFeed ih => exact ih
  | case4 s ih => exact ih
  | case5 c s noPair noReturn noFeed ih =>
      rw [flatten_prepend, List.forall_mem_cons]
      have plain : breaksLine c = false := by
        simp only [breaksLine, Bool.or_eq_false_iff, beq_eq_false_iff_ne]
        exact ⟨noFeed, noReturn⟩
      exact ⟨plain, ih⟩

/-! ### Tables -/

/-- Rows as they are written. -/
def write (rows : List (List String)) : String := String.join (rows.map line) ++ "\n"

theorem toList_line (row : List String) :
    (line row).toList = '|' :: body (row.map String.toList) ++ ['\n'] := by
  rw [line, String.toList_append, String.toList_append, String.toList_join, body, List.flatMap_map,
    List.flatMap_map]
  simp [padded]

theorem toList_write (rows : List (List String)) :
    (write rows).toList =
      (rows.flatMap fun row => '|' :: body (row.map String.toList) ++ ['\n']) ++ ['\n'] := by
  rw [write, String.toList_append, String.toList_join, List.flatMap_map]
  simp [toList_line]

theorem mem_of_mem_dropBlank {s : List Char} {c : Char} : c ∈ dropBlank s → c ∈ s := by
  fun_cases dropBlank s with
  | case1 r => exact List.mem_cons_of_mem _
  | case2 r other => exact id

theorem mem_of_mem_unpad {s : List Char} {c : Char} (h : c ∈ unpad s) : c ∈ s := by
  rw [unpad, List.mem_reverse] at h
  exact mem_of_mem_dropBlank (List.mem_reverse.mp (mem_of_mem_dropBlank h))

/-- Cells are made of the characters of their line. -/
theorem mem_of_mem_cells {s cell : List Char} (h : cell ∈ cells s) {c : Char} (mem : c ∈ cell) :
    c ∈ s := by
  obtain ⟨piece, there, rfl⟩ := List.mem_map.mp h
  have whole : piece ∈ pieces (dropBar s) := by
    split at there
    · exact (List.dropLast_subset _) there
    · exact there
  have here := (flatten_pieces (dropBar s)).subset
    (List.mem_flatten_of_mem whole (mem_of_mem_unpad mem))
  revert here
  fun_cases dropBar s with
  | case1 r => exact List.mem_cons_of_mem _
  | case2 r other => exact id

/-- What is read as a cell has no line break. -/
theorem plain_read {s : String} {row : List String} (mem : row ∈ read s) {cell : String}
    (here : cell ∈ row) : ∀ c ∈ cell.toList, breaksLine c = false := by
  obtain ⟨line, taken, rfl⟩ := List.mem_map.mp mem
  obtain ⟨chars, inLine, rfl⟩ := List.mem_map.mp here
  intro c hc
  rw [String.toList_ofList] at hc
  have whole := (List.takeWhile_prefix _).subset taken
  exact plain_textLines _ c (List.mem_flatten_of_mem whole (mem_of_mem_cells inLine hc))

theorem plain_body {row : List (List Char)}
    (plain : ∀ cell ∈ row, ∀ c ∈ cell, breaksLine c = false) :
    ∀ c ∈ '|' :: body row, breaksLine c = false := by
  intro c hc
  rcases List.mem_cons.mp hc with rfl | hc
  · rfl
  · obtain ⟨cell, mem, there⟩ := List.mem_flatMap.mp hc
    simp only [padded, List.cons_append, List.mem_cons, List.mem_append, List.not_mem_nil,
      or_false] at there
    rcases there with rfl | ⟨inside | rfl⟩ | rfl
    · rfl
    · exact plain cell mem c inside
    · rfl
    · rfl

/-- Rows without line breaks are lines of their own, and nothing follows them. -/
theorem read_write {rows : List (List String)}
    (plain : ∀ row ∈ rows, ∀ cell ∈ row, ∀ c ∈ cell.toList, breaksLine c = false) :
    read (write rows) =
      rows.map fun row => (cells ('|' :: body (row.map String.toList))).map String.ofList := by
  rw [read, toList_write]
  induction rows with
  | nil => rfl
  | cons row rows ih =>
      obtain ⟨here, later⟩ := List.forall_mem_cons.mp plain
      have whole : ∀ c ∈ '|' :: body (row.map String.toList), breaksLine c = false :=
        plain_body (List.forall_mem_map.mpr here)
      rw [List.flatMap_cons, List.append_assoc, List.append_assoc, List.singleton_append,
        textLines_line whole, List.takeWhile_cons_of_pos, List.map_cons, List.map_cons, ih later]
      rfl

/-- The characters that a cell may not have. -/
def special (c : Char) : Bool := c == '|' || breaksLine c

theorem forall_special_iff {s : List Char} :
    (∀ c ∈ s, special c = false) ↔ '|' ∉ s ∧ ∀ c ∈ s, breaksLine c = false := by
  simp only [special, Bool.or_eq_false_iff, beq_eq_false_iff_ne, forall_and]
  exact and_congr_left fun _ =>
    ⟨fun other mem => other '|' mem rfl, fun bar c mem same => bar (same ▸ mem)⟩

/-- A written row is read as itself just if none of its cells has a bar. -/
theorem readRow_eq_iff {row : List String} :
    (cells ('|' :: body (row.map String.toList))).map String.ofList = row ↔
      ∀ cell ∈ row, '|' ∉ cell.toList := by
  have texts : String.ofList ∘ String.toList = id := funext fun _ => String.ofList_toList
  have chars : String.toList ∘ String.ofList = id := funext fun _ => String.toList_ofList
  rw [← List.forall_mem_map (P := fun cell => '|' ∉ cell), ← cells_body_eq_iff]
  constructor
  · intro same
    conv_rhs => rw [← same, List.map_map, chars, List.map_id]
  · intro same
    rw [same, List.map_map, texts, List.map_id]

/-- A written table is read back just if no cell has a bar or a line break. -/
theorem read_write_iff {rows : List (List String)} :
    read (write rows) = rows ↔
      ∀ row ∈ rows, ∀ cell ∈ row, ∀ c ∈ cell.toList, special c = false := by
  simp only [forall_special_iff, forall_and]
  constructor
  · intro same
    have plain : ∀ row ∈ rows, ∀ cell ∈ row, ∀ c ∈ cell.toList, breaksLine c = false :=
      fun row mem cell here => plain_read (same.symm ▸ mem) here
    rw [read_write plain] at same
    have each := List.map_inj_left.mp (same.trans (List.map_id rows).symm)
    exact ⟨fun row mem => readRow_eq_iff.mp (each row mem), plain⟩
  · rintro ⟨noBar, plain⟩
    rw [read_write plain]
    exact (List.map_congr_left fun row mem => readRow_eq_iff.mpr (noBar row mem)).trans
      (List.map_id rows)

/-! ### Titles -/

theorem special_ofNat {n : Nat} (bar : n ≠ 124) (feed : n ≠ 10) (return_ : n ≠ 13) :
    special (Char.ofNat n) = false := by
  rw [special, breaksLine, Bool.or_eq_false_iff, Bool.or_eq_false_iff, beq_eq_false_iff_ne,
    beq_eq_false_iff_ne, beq_eq_false_iff_ne]
  have code {c : Char} : Char.ofNat n = c → n = c.toNat ∨ c.toNat = 0 := by
    rintro rfl
    by_cases valid : n.isValidChar
    · have itself : Char.ofNat n = Char.ofNatAux n valid := dif_pos valid
      exact .inl (itself ▸ rfl)
    · have zero : Char.ofNat n = '\x00' := dif_neg valid
      exact .inr (zero ▸ rfl)
  refine ⟨fun same => ?_, fun same => ?_, fun same => ?_⟩
  · exact (code same).elim bar (by decide)
  · exact (code same).elim feed (by decide)
  · exact (code same).elim return_ (by decide)

/-- Capitals of several characters, and capitals at a distance, are no special characters. -/
theorem special_wideCapitals : ∀ e ∈ Text.wideCapitals, ∀ n ∈ e.2, n ≠ 124 ∧ n ≠ 10 ∧ n ≠ 13 := by
  decide

theorem special_caseRuns : ∀ run ∈ Text.caseRuns, 13 < run.first + run.distance ∧
    (run.last + run.distance < 124 ∨ 124 < run.first + run.distance) := by
  decide +kernel

theorem special_uppercase {c : Char} (plain : special c = false) :
    ∀ d ∈ Text.uppercase c, special d = false := by
  rw [Text.uppercase]
  split
  case isTrue ascii =>
      have each : ∀ n : Fin 128, special (Char.ofNat n) = false →
          special (Char.ofNat n).toUpper = false := by decide
      have here := each ⟨c.toNat, ascii⟩
      rw [Char.ofNat_toNat] at here
      exact List.forall_mem_singleton.mpr (here plain)
  case isFalse =>
      split
      case h_1 codes found =>
          obtain ⟨before, after, same, -⟩ := List.lookup_eq_some_iff.mp found
          have listed : (c.toNat, codes) ∈ Text.wideCapitals := by
            rw [same]
            exact List.mem_append_right _ List.mem_cons_self
          rw [List.forall_mem_map]
          intro n hn
          obtain ⟨bar, feed, return_⟩ := special_wideCapitals _ listed n hn
          exact special_ofNat bar feed return_
      case h_2 =>
          split
          case h_1 run found =>
              have inside := List.find?_some found
              simp only [Bool.and_eq_true, decide_eq_true_eq] at inside
              obtain ⟨low, apart⟩ := special_caseRuns run (List.mem_of_find?_eq_some found)
              refine List.forall_mem_singleton.mpr (special_ofNat ?_ ?_ ?_)
              · omega
              · omega
              · omega
          case h_2 => exact List.forall_mem_singleton.mpr plain

theorem mem_of_mem_words {s word : List Char} (h : word ∈ Text.words s) {c : Char}
    (mem : c ∈ word) : c ∈ s := by
  have parts (current s : List Char) (inside : word ∈ Text.words.go current s) :
      c ∈ current ∨ c ∈ s := by
    fun_induction Text.words.go current s with
    | case1 current empty => cases inside
    | case2 current some_ =>
        rw [List.mem_singleton.mp inside] at mem
        exact .inl (List.mem_reverse.mp mem)
    | case3 current d r blank empty ih =>
        exact .inr (List.mem_cons_of_mem _ ((ih inside).resolve_left List.not_mem_nil))
    | case4 current d r blank some_ ih =>
        rcases List.mem_cons.mp inside with rfl | later
        · exact .inl (List.mem_reverse.mp mem)
        · exact .inr (List.mem_cons_of_mem _ ((ih later).resolve_left List.not_mem_nil))
    | case5 current d r plain ih =>
        rcases ih inside with first | rest
        · rcases List.mem_cons.mp first with rfl | old
          · exact .inr List.mem_cons_self
          · exact .inl old
        · exact .inr (List.mem_cons_of_mem _ rest)
  exact (parts [] s h).resolve_left List.not_mem_nil

theorem forall_mem_intercalate {P : Char → Prop} {separator : List Char} {parts : List (List Char)}
    (between : ∀ c ∈ separator, P c) (inside : ∀ part ∈ parts, ∀ c ∈ part, P c) :
    ∀ c ∈ separator.intercalate parts, P c := by
  induction parts with
  | nil => simp
  | cons part parts ih =>
      obtain ⟨here, later⟩ := List.forall_mem_cons.mp inside
      cases parts with
      | nil =>
          rw [List.intercalate_singleton]
          exact here
      | cons next parts =>
          rw [List.intercalate_cons_cons, List.forall_mem_append, List.forall_mem_append]
          exact ⟨⟨here, between⟩, ih later⟩

/-- A title has no special character if its key has none. -/
theorem special_title {key : String} (plain : ∀ c ∈ key.toList, special c = false) :
    ∀ c ∈ (title key).toList, special c = false := by
  rw [title, String.toList_intercalate]
  refine forall_mem_intercalate (fun c mem => List.mem_singleton.mp mem ▸ rfl) ?_
  rw [List.map_map, List.forall_mem_map]
  intro word mem
  have spaced : ∀ c ∈ word, special c = false := by
    intro c hc
    obtain ⟨d, hd, rfl⟩ := List.mem_map.mp (mem_of_mem_words mem hc)
    split
    · rfl
    · exact plain d hd
  rw [Function.comp_apply, String.toList_ofList]
  cases word with
  | nil => exact fun c hc => absurd hc List.not_mem_nil
  | cons first rest =>
      obtain ⟨here, later⟩ := List.forall_mem_cons.mp spaced
      exact List.forall_mem_append.mpr ⟨special_uppercase here, later⟩

/-! ### Tables of objects -/

/-- What the lines of a table say: the titles of the columns, a separator, and the values of every
object. -/
def content (columns : List String) (values : List Value) : List (List String) :=
  columns.map title :: columns.map (fun _ => "---") ::
    (rows values).map fun row => columns.map fun column => displayText (cell row column)

/-- A table keeps its shape just if no value has a bar or a line break in it. -/
theorem read_table_iff (first : Fields) (others : List Value)
    (plain : ∀ key ∈ first.keys, ∀ c ∈ key.toList, special c = false) :
    read (Format.markdown.render (.array (.object first :: others))) =
        content first.keys (.object first :: others) ↔
      ∀ row ∈ rows (.object first :: others), ∀ column ∈ first.keys,
        ∀ c ∈ (displayText (cell row column)).toList, special c = false := by
  have written : Format.markdown.render (.array (.object first :: others)) =
      write (content first.keys (.object first :: others)) := by
    change table (.object first :: others) = _
    rw [table, columns?, write, content, List.map_cons, List.map_cons, List.map_map]
    rfl
  rw [written, read_write_iff, content]
  simp only [List.forall_mem_cons, List.forall_mem_map]
  constructor
  · rintro ⟨-, -, rows⟩
    exact rows
  · intro rows
    have dashes : ∀ c ∈ "---".toList, special c = false := by simp [special, breaksLine]
    exact ⟨fun key mem => special_title (plain key mem), fun _ _ => dashes, rows⟩

/-- A row without a value for the first key, an element that is no object, and texts with
backslashes and blanks at their ends. -/
theorem read_table_iff_backslashes :
    let first : Fields := [("file_path", .string "C:\\src\\"), ("n", .null)]
    let others : List Value := [.bool true, .object [("n", .string " |")]]
    (∀ key ∈ first.keys, ∀ c ∈ key.toList, special c = false) ∧
      (read (Format.markdown.render (.array (.object first :: others))) =
          content first.keys (.object first :: others) ↔
        ∀ row ∈ rows (.object first :: others), ∀ column ∈ first.keys,
          ∀ c ∈ (displayText (cell row column)).toList, special c = false) := by
  intro first others
  have plain : ∀ key ∈ first.keys, ∀ c ∈ key.toList, special c = false := by
    simp [first, Fields.keys, special, breaksLine]
  exact ⟨plain, read_table_iff first others plain⟩

/-- A value with a bar is read as two cells under one key. -/
theorem bar_parts_cell :
    let table : List Value := [.object [("a", .string "x|y")]]
    content ["a"] table = [["A"], ["---"], ["x|y"]] ∧
      read (Format.markdown.render (.array table)) = [["A"], ["---"], ["x", "y"]] := by
  decide +kernel

end SuiteMetrics.Render.Markdown
