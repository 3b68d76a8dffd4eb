import Mathlib.Data.List.Forall2
import Mathlib.Order.Bounds.Defs
import SuiteMetrics.Proofs.TableShape
import SuiteMetrics.Proofs.TextParts
import SuiteMetrics.Render.Columns

/-!
Plain tables are aligned and complete.

The writer finds the widths of the columns in a first pass over all cells and fills the cells up to
these widths in a second one. Both passes count characters, so a cell is never wider than its column
(`le_columnWidth`), and every written cell is the whole text and blanks on one side (`fills_pad`).
The width of a column is the least that fits (`isLeast_columnWidth`). Only the end of a line loses
white space (`endsAt_trimEnd`), so that no column before it is moved. `table_is_aligned` says this
of whole tables: a line for the keys and one for every object in order, each with its cells at the
same places.
-/

namespace SuiteMetrics.Text

/-- A text without the white space at its end, and with everything else. -/
structure EndsAt (s line : List Char) : Prop where
  rest : ∃ blanks, s = line ++ blanks ∧ ∀ c ∈ blanks, isBlank c = true
  last : ∀ c ∈ line.getLast?, isBlank c = false

theorem endsAt_trimEnd (s : List Char) : EndsAt s (trimEnd s) where
  rest := dropEndWhile_split isBlank s
  last _ mem := getLast?_dropEndWhile mem

end SuiteMetrics.Text

namespace SuiteMetrics.Render.Columns

open Json (Value Fields)
open Text (EndsAt endsAt_trimEnd)

/-! ### Widths -/

theorem foldl_max_le_iff {ns : List Nat} {m n : Nat} :
    ns.foldl max m ≤ n ↔ m ≤ n ∧ ∀ k ∈ ns, k ≤ n := by
  induction ns generalizing m with
  | nil => simp
  | cons k ns ih => rw [List.foldl_cons, ih, List.forall_mem_cons, Nat.max_le, and_assoc]

/-- The cells of a column: its key, and what stands in it for every row. -/
def columnEntries (table : List Value) (column : String) : List Entry :=
  .ofKey column :: (rows table).map fun row => .ofRow row column

/-- The width of a column. -/
def columnWidth (table : List Value) (column : String) : Nat :=
  ((columnEntries table column).map fun e => e.text.length).foldl max 0

theorem columnWidth_le_iff {table : List Value} {column : String} {n : Nat} :
    columnWidth table column ≤ n ↔ ∀ e ∈ columnEntries table column, e.text.length ≤ n := by
  rw [columnWidth, foldl_max_le_iff, List.forall_mem_map]
  exact and_iff_right n.zero_le

theorem le_columnWidth {table : List Value} {column : String} {e : Entry}
    (mem : e ∈ columnEntries table column) : e.text.length ≤ columnWidth table column :=
  columnWidth_le_iff.mp (Nat.le_refl _) e mem

/-- The width of a column is the least that fits its key and the texts of all its values. -/
theorem isLeast_columnWidth (table : List Value) (column : String) :
    IsLeast {n | column.length ≤ n ∧ ∀ row ∈ rows table, (displayText (cell row column)).length ≤ n}
      (columnWidth table column) := by
  have fits : ∀ n, columnWidth table column ≤ n ↔ column.length ≤ n ∧
      ∀ row ∈ rows table, (displayText (cell row column)).length ≤ n := by
    intro n
    rw [columnWidth_le_iff, columnEntries, List.forall_mem_cons, List.forall_mem_map]
    simp only [Entry.ofKey, Entry.ofRow, String.length_toList]
  refine ⟨(fits _).mp (Nat.le_refl _), ?_⟩
  intro n some_
  exact (fits n).mpr some_

/-- The widths that are found in the grid of all cells are those of the columns. -/
theorem widths_grid (columns : List String) (table : List Value) :
    (List.range columns.length).map (width (grid columns table)) =
      columns.map (columnWidth table) := by
  refine List.ext_getElem? fun i => ?_
  rw [List.getElem?_map, List.getElem?_map]
  by_cases inside : i < columns.length
  · rw [List.getElem?_range inside, List.getElem?_eq_getElem inside, Option.map_some,
      Option.map_some]
    have lengths :
        (grid columns table).filterMap (fun cells => cells[i]?.map fun e => e.text.length) =
          (columnEntries table columns[i]).map fun e => e.text.length := by
      simp [grid, columnEntries, inside, Function.comp_def]
    rw [width, lengths, columnWidth]
  · simp [inside]

/-! ### Lines -/

/-- A cell of a width is a whole text with blanks on one side of it. -/
structure Fills (width : Nat) (text : List Char) (onRight : Bool) (cell : List Char) : Prop where
  length : cell.length = width
  blanks : ∃ n, cell =
    if onRight then List.replicate n ' ' ++ text else text ++ List.replicate n ' '

theorem fills_pad {width : Nat} {e : Entry} (fits : e.text.length ≤ width) :
    Fills width e.text e.onRight (e.pad width) := by
  refine ⟨?_, width - e.text.length, rfl⟩
  rw [Entry.pad]
  split
  · rw [List.length_append, List.length_replicate, Nat.sub_add_cancel fits]
  · rw [List.length_append, List.length_replicate, Nat.add_sub_cancel' fits]

/-- A line is made of cells for the columns, two blanks apart, and has no white space at its end. -/
def Lays (columns : List String) (isCell : String → List Char → Prop) (line : List Char) : Prop :=
  ∃ cells, List.Forall₂ isCell columns cells ∧ EndsAt ([' ', ' '].intercalate cells) line

/-- The text of a line behind its indent. -/
def body (columns : List String) (table : List Value) (entry : String → Entry) : List Char :=
  Text.trimEnd ([' ', ' '].intercalate
    (columns.map fun column => (entry column).pad (columnWidth table column)))

theorem lays_body {columns : List String} {table : List Value} (entry : String → Entry)
    (mem : ∀ column ∈ columns, entry column ∈ columnEntries table column) :
    Lays columns (fun column => Fills (columnWidth table column) (entry column).text
      (entry column).onRight) (body columns table entry) := by
  refine ⟨_, ?_, endsAt_trimEnd _⟩
  rw [List.forall₂_map_right_iff, List.forall₂_same]
  intro column here
  exact fills_pad (le_columnWidth (mem column here))

theorem forall_mem_pad {P : Char → Prop} (blank : P ' ') {e : Entry} (text : ∀ c ∈ e.text, P c)
    (width : Nat) : ∀ c ∈ e.pad width, P c := by
  have blanks : ∀ c ∈ List.replicate (width - e.text.length) ' ', P c := by
    intro c mem
    rwa [List.eq_of_mem_replicate mem]
  rw [Entry.pad]
  split
  · exact List.forall_mem_append.mpr ⟨blanks, text⟩
  · exact List.forall_mem_append.mpr ⟨text, blanks⟩

/-- A line has no line feed if none of its cells has one. -/
theorem lineFeed_notMem_body {columns : List String} {table : List Value} {entry : String → Entry}
    (plain : ∀ column ∈ columns, '\n' ∉ (entry column).text) : '\n' ∉ body columns table entry := by
  let cells := columns.map fun column => (entry column).pad (columnWidth table column)
  have inCells : ∀ cell ∈ cells, ∀ c ∈ cell, c ≠ '\n' := by
    rw [List.forall_mem_map]
    intro column here
    refine forall_mem_pad (by decide) ?_ _
    rintro c mem rfl
    exact plain column here mem
  have between : ∀ c ∈ [' ', ' '], c ≠ '\n' := by simp
  have inWhole := Markdown.forall_mem_intercalate between inCells
  obtain ⟨blanks, split, -⟩ := (endsAt_trimEnd ([' ', ' '].intercalate cells)).rest
  intro mem
  rw [split] at inWhole
  exact inWhole '\n' (List.mem_append_left blanks mem) rfl

/-! ### Tables -/

theorem line_entries (indent : List Char) (columns : List String) (table : List Value)
    (entry : String → Entry) :
    line indent (columns.map (columnWidth table)) (columns.map entry) =
      indent ++ body columns table entry ++ ['\n'] := by
  rw [line, List.zipWith_map, List.zipWith_self]
  rfl

theorem lines_eq (indent : List Char) (columns : List String) (table : List Value) :
    lines indent columns table =
      (body columns table .ofKey :: (rows table).map fun row => body columns table (.ofRow row)).map
        fun text => indent ++ text ++ ['\n'] := by
  simp only [lines, widths_grid]
  simp only [grid, List.map_cons, List.map_map, line_entries, Function.comp_def]

/-- Lines show objects in aligned columns: the keys first, and then the values of every object. -/
structure Aligned (columns : List String) (objects : List Fields) (header : List Char)
    (body : List (List Char)) (width : String → Nat) : Prop where
  /-- Every column is as wide as it has to be. -/
  least : ∀ column ∈ columns, IsLeast {n | column.length ≤ n ∧
    ∀ row ∈ objects, (displayText (cell row column)).length ≤ n} (width column)
  /-- The first line has the keys. -/
  keys : Lays columns (fun column => Fills (width column) column.toList false) header
  /-- Every other line has the values of one object, numbers behind their blanks and all else before
  them. -/
  values : List.Forall₂ (fun row => Lays columns fun column =>
    Fills (width column) (displayText (cell row column)).toList (cell row column).isNumber)
    objects body
  /-- No line is broken. -/
  unbroken : ∀ line ∈ header :: body, '\n' ∉ line

/-- The lines of a table are aligned, whatever its columns are. -/
theorem aligned_bodies (columns : List String) (table : List Value)
    (plainKeys : ∀ column ∈ columns, '\n' ∉ column.toList)
    (plainCells : ∀ row ∈ rows table, ∀ column ∈ columns,
      '\n' ∉ (displayText (cell row column)).toList) :
    Aligned columns (rows table) (body columns table .ofKey)
      ((rows table).map fun row => body columns table (.ofRow row)) (columnWidth table) := by
  refine ⟨fun column _ => isLeast_columnWidth table column, ?_, ?_, ?_⟩
  · exact lays_body .ofKey fun column _ => List.mem_cons_self
  · rw [List.forall₂_map_right_iff, List.forall₂_same]
    intro row mem
    refine lays_body (.ofRow row) ?_
    intro column _
    exact List.mem_cons_of_mem _ (List.mem_map.mpr ⟨row, mem, rfl⟩)
  · rw [List.forall_mem_cons, List.forall_mem_map]
    exact ⟨lineFeed_notMem_body plainKeys, fun row mem => lineFeed_notMem_body (plainCells row mem)⟩

/-- A table whose first element is an object is written as a line for the keys of that object and
one for every object in order, each behind the indent, and these lines are aligned. -/
theorem table_is_aligned (indent : List Char) (first : Fields) (others : List Value)
    (plainKeys : ∀ key ∈ first.keys, '\n' ∉ key.toList)
    (plainCells : ∀ row ∈ first :: others.filterMap Value.fields?, ∀ column ∈ first.keys,
      '\n' ∉ (displayText (cell row column)).toList) :
    ∃ header body width,
      Aligned first.keys (first :: others.filterMap Value.fields?) header body width ∧
      (table indent (.object first :: others)).toList =
        (header :: body).flatMap fun line => indent ++ line ++ ['\n'] := by
  let values := Value.object first :: others
  refine ⟨_, _, _, aligned_bodies first.keys values plainKeys plainCells, ?_⟩
  rw [table, columns?, String.toList_ofList, lines_eq, List.flatMap_def]

/-- Keys and values with characters of several bytes, a row without one of the keys, an element that
is no object, and a value that ends with white space. -/
theorem table_is_aligned_wideCharacters :
    let first : Fields := [("größe", .number (.integer 7)), ("名", .string "x\t")]
    let others : List Value := [.null, .object [("größe", .string "é"), ("other", .bool true)]]
    (∀ key ∈ first.keys, '\n' ∉ key.toList) ∧
      (∀ row ∈ first :: others.filterMap Value.fields?, ∀ column ∈ first.keys,
        '\n' ∉ (displayText (cell row column)).toList) ∧
      ∃ header body width,
        Aligned first.keys (first :: others.filterMap Value.fields?) header body width ∧
        (table [' '] (.object first :: others)).toList =
          (header :: body).flatMap fun line => [' '] ++ line ++ ['\n'] := by
  intro first others
  have plainKeys : ∀ key ∈ first.keys, '\n' ∉ key.toList := by
    simp [first, Fields.keys]
  have plainCells : ∀ row ∈ first :: others.filterMap Value.fields?, ∀ column ∈ first.keys,
      '\n' ∉ (displayText (cell row column)).toList := by
    decide +kernel
  exact ⟨plainKeys, plainCells, table_is_aligned [' '] first others plainKeys plainCells⟩

/-- Widths are counted in characters. -/
example :
    table [] [.object [("größe", .number (.integer 7)), ("名", .string "x\t")],
      .object [("größe", .string "é")]] = "größe  名\n    7  x\né      N/A\n" := by
  decide +kernel

end SuiteMetrics.Render.Columns
