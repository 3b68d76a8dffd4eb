import SuiteMetrics.Proofs.KeyColumns
import SuiteMetrics.Proofs.MethodRows
import SuiteMetrics.Proofs.TableRoundTrip

/-!
The tables of a report are rectangular.

A row is made by inserting values under names, and a name that is there keeps its place. So the
columns of a row are the names that were inserted, each at its first place (`keys_insertAll`), and
do not depend on the values: a group without data has the columns of one with data. A written table
has the columns of its first row. Where these are the columns of every row, the records that are
read back hold all values of all rows, and nothing stands for a column that a row does not have
(`Whole.of_uniform`). Every table of every analysis is of this kind, whatever the labels of its key
are (`report_tables_whole`).
-/

namespace SuiteMetrics

open Json (Value Fields)

/-! ### The columns of a row -/

theorem eraseDups_eq_self {α : Type} [DecidableEq α] {xs : List α} (distinct : xs.Nodup) :
    xs.eraseDups = xs := by
  induction xs with
  | nil => rfl
  | cons x xs ih =>
      obtain ⟨new, distinct⟩ := List.nodup_cons.mp distinct
      have others : xs.filter (fun y => !y == x) = xs := by
        refine List.filter_eq_self.mpr ?_
        intro y mem
        rw [Bool.not_eq_true', beq_eq_false_iff_ne]
        rintro rfl
        exact new mem
      rw [List.eraseDups_cons, others, ih distinct]

/-- What is there already has no second place. -/
theorem eraseDups_append_cons {α : Type} [DecidableEq α] {xs : List α} {x : α} (mem : x ∈ xs)
    (ys : List α) : (xs ++ x :: ys).eraseDups = (xs ++ ys).eraseDups := by
  have again : (x :: ys).removeAll xs = ys.removeAll xs := by
    simp [List.removeAll, mem]
  rw [List.eraseDups_append, again, ← List.eraseDups_append]

namespace Json.Fields

variable {row : Fields}

/-- The columns of a row are those that were there and those that were inserted, each at its first
place. -/
theorem keys_insertAll {fields : Fields} (distinct : fields.keys.Nodup) (more : Fields) :
    (insertAll fields more).keys = (fields.keys ++ more.keys).eraseDups := by
  induction more generalizing fields with
  | nil =>
      change fields.keys = (fields.keys ++ []).eraseDups
      rw [List.append_nil, eraseDups_eq_self distinct]
  | cons f r ih =>
      obtain ⟨key, value⟩ := f
      have inserted := keys_insert fields key value
      rw [insertAll_cons, ih]
      · rw [inserted]
        split
        case isTrue present => exact (eraseDups_append_cons present (keys r)).symm
        case isFalse absent => rw [List.append_assoc]; rfl
      · rw [inserted]
        split
        case isTrue present => exact distinct
        case isFalse absent => exact List.concat_eq_append ▸ distinct.concat absent

/-- Under each of its keys a row has the value that stands there, if no key stands twice. -/
theorem get?_of_mem (distinct : row.keys.Nodup) {field : String × Value} (mem : field ∈ row) :
    row.get? field.1 = some field.2 := by
  obtain ⟨front, back, rfl⟩ := List.append_of_mem mem
  refine List.lookup_eq_some_iff.mpr ⟨front, back, rfl, ?_⟩
  intro other before
  rw [bne_iff_ne]
  intro same
  rw [keys, List.map_append, List.map_cons, List.nodup_append] at distinct
  exact distinct.2.2 _ (List.mem_map_of_mem before) _ List.mem_cons_self same.symm

end Json.Fields

namespace Report

open Render.Csv (CellText read? read?_table)

theorem keys_row (labels : List String) (key : GroupKey) (own : Fields) :
    ((keyColumns labels key.labels).insertAll own).keys = (labels ++ own.keys).eraseDups := by
  have joined : (keyColumns labels key.labels).insertAll own =
      Fields.insertAll [] (labelled labels key.labels ++ own) := List.foldl_append.symm
  have keys : Fields.keys (labelled labels key.labels ++ own) = labels ++ own.keys := by
    rw [Fields.keys, List.map_append]
    exact congrArg (· ++ own.keys) (keys_labelled labels key)
  have empty : (Fields.keys []).Nodup := List.nodup_nil
  rw [joined, Fields.keys_insertAll empty, keys]
  rfl

/-! ### Tables that are written -/

/-- The record has the texts of all values of a row in their order. -/
def RecordOf (row : Fields) (record : List String) : Prop :=
  List.Forall₂ (fun field text => CellText (some field.2) text) row record

/-- A table loses nothing when it is written, and nothing is added. -/
structure Whole (columns : List String) (table : List Fields) : Prop where
  /-- No column has the name of another. -/
  distinct : columns.Nodup
  /-- Every row has the columns of the table in their order. -/
  uniform : ∀ row ∈ table, row.keys = columns
  /-- The written table is read back as its columns and a record for every row. -/
  written : ∃ records, List.Forall₂ RecordOf table records ∧
    read? (Render.Csv.table (table.map .object)) =
      some (if table.isEmpty then [] else columns :: records)

theorem recordOf_of_keys {row : Fields} (distinct : row.keys.Nodup) {record : List String}
    (texts : List.Forall₂ (fun key text => CellText (row.get? key) text) row.keys record) :
    RecordOf row record := by
  rw [Fields.keys, List.forall₂_map_left_iff] at texts
  have read : ∀ field ∈ row, row.get? field.1 = some field.2 :=
    fun _ mem => Fields.get?_of_mem distinct mem
  refine ((List.forall₂_and_left _ _).mpr ⟨read, texts⟩).imp ?_
  rintro field text ⟨value, here⟩
  rwa [value] at here

theorem Whole.of_uniform {columns : List String} {table : List Fields} (distinct : columns.Nodup)
    (some_ : columns ≠ []) (uniform : ∀ row ∈ table, row.keys = columns) :
    Whole columns table := by
  refine ⟨distinct, uniform, ?_⟩
  cases table with
  | nil => exact ⟨[], .nil, rfl⟩
  | cons first others =>
      have header : first.keys = columns := uniform first List.mem_cons_self
      have filled : first ≠ [] := by
        rintro rfl
        exact some_ header.symm
      have objects : (others.map Value.object).filterMap Value.fields? = others := by
        rw [List.filterMap_map]
        exact List.filterMap_some
      obtain ⟨records, read, texts⟩ := read?_table first (others.map .object) filled
      rw [objects, header] at texts
      refine ⟨records, ((List.forall₂_and_left _ _).mpr ⟨uniform, texts⟩).imp ?_, ?_⟩
      · rintro row record ⟨keys, here⟩
        rw [← keys] at distinct here
        exact recordOf_of_keys distinct here
      · rw [List.map_cons, read, header]
        rfl

/-- Rows that are made by inserting values under the same names make a whole table. -/
theorem Whole.of_rows {labels own : List String} (some_ : own ≠ []) {table : List Fields}
    (rows : ∀ row ∈ table, ∃ (key : GroupKey) (more : Fields),
      row = (keyColumns labels key.labels).insertAll more ∧ more.keys = own) :
    Whole (labels ++ own).eraseDups table := by
  refine of_uniform (Analysis.nodup_eraseDups _) ?_ ?_
  · obtain ⟨name, mem⟩ := List.exists_mem_of_ne_nil own some_
    have listed := List.mem_eraseDups.mpr (List.mem_append_right labels mem)
    exact List.ne_nil_of_mem listed
  · intro row mem
    obtain ⟨key, more, rfl, rfl⟩ := rows row mem
    exact keys_row labels key more

theorem whole_summaryRows (labels : List String) (rows : List SummaryRow) :
    Whole (labels ++ summaryColumns).eraseDups (summaryRows labels rows) := by
  refine Whole.of_rows (List.cons_ne_nil _ _) ?_
  rw [summaryRows, List.forall_mem_map]
  rintro ⟨key, metric, summary⟩ -
  refine ⟨key, _, rfl, ?_⟩
  cases summary with
  | none => rfl
  | some s => rfl

end Report

namespace Analysis

open Report

theorem ScoreAnalysis.whole_detailedRows (a : ScoreAnalysis) :
    Whole (a.labels ++ detailedColumns a.metrics a.byMethod).eraseDups a.detailedRows := by
  rw [detailedRows]
  cases byMethod : a.byMethod with
  | false =>
      refine Whole.of_rows (by simp [detailedColumns]) ?_
      rw [if_neg Bool.false_ne_true, List.forall_mem_map]
      intro f _
      exact ⟨f.key, _, rfl, by simp [Fields.keys, detailedColumns]⟩
  | true =>
      refine Whole.of_rows (by simp [detailedColumns]) ?_
      rw [if_pos rfl]
      intro row mem
      obtain ⟨f, -, inFile⟩ := List.mem_flatMap.mp mem
      obtain ⟨m, -, rfl⟩ := List.mem_map.mp inFile
      exact ⟨f.key, _, rfl, by simp [Fields.keys, detailedColumns, policyMetrics]⟩

theorem ImportAnalysis.whole_reportRows (a : ImportAnalysis) :
    Whole (a.labels ++ detailedColumns).eraseDups (a.reports.map a.reportRow) := by
  refine Whole.of_rows (List.cons_ne_nil _ _) ?_
  rw [List.forall_mem_map]
  intro r _
  exact ⟨r.key, _, rfl, rfl⟩

theorem SyntaxAnalysis.whole_groupRows (labels : List String)
    (groups : List (GroupKey × GroupSyntax)) :
    Whole (labels ++ groupColumns).eraseDups
      (groups.map fun (key, g) => groupRow labels key g) := by
  refine Whole.of_rows (List.cons_ne_nil _ _) ?_
  rw [List.forall_mem_map]
  rintro ⟨key, g⟩ _
  exact ⟨key, _, rfl, rfl⟩

theorem SyntaxAnalysis.whole_fileRows (labels : List String) (files : List FileSyntax) :
    Whole (labels ++ fileColumns).eraseDups (files.map (fileRow labels)) := by
  refine Whole.of_rows (List.cons_ne_nil _ _) ?_
  rw [List.forall_mem_map]
  intro f _
  exact ⟨f.key, _, rfl, rfl⟩

/-- The tables of all reports are whole, with the labels of the key and the names of the row's own
columns, each at its first place, as their columns. -/
theorem report_tables_whole :
    (∀ a : ScoreAnalysis,
      Whole (a.labels ++ summaryColumns).eraseDups a.report.summary ∧
      Whole (a.labels ++ ScoreAnalysis.detailedColumns a.metrics a.byMethod).eraseDups
        a.report.detailed) ∧
    (∀ a : ImportAnalysis,
      Whole (a.labels ++ summaryColumns).eraseDups a.report.summary ∧
      Whole (a.labels ++ ImportAnalysis.detailedColumns).eraseDups a.report.detailed) ∧
    ∀ a : SyntaxAnalysis,
      Whole (a.labels ++ SyntaxAnalysis.groupColumns).eraseDups a.report.summary ∧
      Whole (a.labels ++ SyntaxAnalysis.fileColumns).eraseDups a.report.detailed := by
  refine ⟨fun a => ⟨?_, a.whole_detailedRows⟩, fun a => ⟨?_, a.whole_reportRows⟩,
    fun a => ⟨?_, SyntaxAnalysis.whole_fileRows a.labels a.files⟩⟩
  · exact whole_summaryRows a.labels a.summary
  · exact whole_summaryRows a.labels a.summary
  · exact SyntaxAnalysis.whole_groupRows a.labels a.summary

/-- Labels may be equal, and one may have the name of another column. -/
example : (["metric", "project", "metric"] ++ summaryColumns).eraseDups =
    ["metric", "project", "count", "mean", "min", "max", "median", "total"] := by
  decide

end Analysis

end SuiteMetrics
