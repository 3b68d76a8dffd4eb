import Mathlib.Data.List.Forall2
import Mathlib.Data.List.Nodup
import SuiteMetrics.Analysis.Import
import SuiteMetrics.Analysis.Soundness
import SuiteMetrics.Settings

/-!
What is left of a grouping key in the rows of a report.

A row begins with a column for every label of the key, and the columns of the row itself are
inserted after them. Inserting under a name that is there replaces the value, so a label keeps its
part of the key only if nothing else bears its name. `Fresh` says this of labels: no two of them
are equal, and none is the name of a column of the row. It is all that is needed, and no less will
do: the rows of an analysis keep every key exactly if the labels are fresh
(`keepsKeys_iff_fresh`). Settings are not held to it: any list of labels that is not empty is
taken (`fileLabel_loses_part`).
-/

namespace SuiteMetrics

open Json (Value Fields)

/-! ### Reading what was inserted -/

namespace Json.Fields

variable {fields more : Fields} {key : String}

theorem insertAll_cons (fields : Fields) (f : String × Value) (more : Fields) :
    insertAll fields (f :: more) = insertAll (fields.insert f.1 f.2) more := rfl

theorem get?_insertAll_of_notMem (absent : key ∉ keys more) :
    (insertAll fields more).get? key = fields.get? key := by
  induction more generalizing fields with
  | nil => rfl
  | cons f r ih =>
      obtain ⟨other, value⟩ := f
      simp only [keys, List.map_cons, List.mem_cons, not_or] at absent
      rw [insertAll_cons, ih absent.2, get?_insert, if_neg absent.1]

/-- What is read under an inserted key does not depend on the fields before. -/
theorem get?_insertAll_of_mem (mem : key ∈ keys more) :
    ∃ value, ∀ fields : Fields, (insertAll fields more).get? key = some value := by
  induction more with
  | nil => simp [keys] at mem
  | cons f r ih =>
      obtain ⟨other, value⟩ := f
      by_cases later : key ∈ keys r
      · obtain ⟨last, read⟩ := ih later
        exact ⟨last, fun fields => read (fields.insert other value)⟩
      · have same : key = other := (List.mem_cons.mp mem).resolve_right later
        refine ⟨value, fun fields => ?_⟩
        rw [insertAll_cons, get?_insertAll_of_notMem later, get?_insert, if_pos same]

/-- What is read under one of several different inserted keys is what was inserted there. -/
theorem get?_insertAll_of_nodup {value : Value} (distinct : (keys more).Nodup)
    (mem : (key, value) ∈ more) : (insertAll fields more).get? key = some value := by
  induction more generalizing fields with
  | nil => cases mem
  | cons f r ih =>
      obtain ⟨fresh, rest⟩ := List.nodup_cons.mp distinct
      rw [insertAll_cons]
      rcases List.mem_cons.mp mem with rfl | later
      · rw [get?_insertAll_of_notMem fresh, get?_insert, if_pos rfl]
      · exact ih rest later

end Json.Fields

namespace Report

/-! ### One row -/

/-- The part of a key at a place, null where the key is shorter. -/
def keyPart (key : GroupKey) (i : Nat) : Value :=
  match key.labels[i]? with
  | some part => .string part
  | none => .null

/-- A row keeps a key: under every label it has the part of the key at the label's place. -/
def KeepsKey (labels : List String) (key : GroupKey) (row : Fields) : Prop :=
  ∀ i label, labels[i]? = some label → row.get? label = some (keyPart key i)

/-- Labels can name the columns of a key beside other columns. -/
structure Fresh (labels columns : List String) : Prop where
  /-- No two labels are equal. -/
  distinct : labels.Nodup
  /-- No label is the name of another column. -/
  apart : ∀ label ∈ labels, label ∉ columns

instance (labels columns : List String) : Decidable (Fresh labels columns) :=
  decidable_of_iff (labels.Nodup ∧ ∀ label ∈ labels, label ∉ columns)
    ⟨fun h => ⟨h.1, h.2⟩, fun h => ⟨h.distinct, h.apart⟩⟩

theorem fresh_append {labels first second : List String} :
    Fresh labels (first ++ second) ↔ Fresh labels first ∧ Fresh labels second := by
  constructor
  · intro fresh
    have apart : ∀ label ∈ labels, label ∉ first ∧ label ∉ second := by
      intro label mem
      rw [← not_or, ← List.mem_append]
      exact fresh.apart label mem
    exact ⟨⟨fresh.distinct, fun label mem => (apart label mem).1⟩,
      ⟨fresh.distinct, fun label mem => (apart label mem).2⟩⟩
  · rintro ⟨one, two⟩
    refine ⟨one.distinct, ?_⟩
    intro label mem
    rw [List.mem_append, not_or]
    exact ⟨one.apart label mem, two.apart label mem⟩

theorem labelled_cons (label : String) (labels : List String) (key : GroupKey) :
    labelled (label :: labels) key.labels =
      (label, keyPart key 0) :: labelled labels key.labels.tail := by
  obtain ⟨parts⟩ := key
  cases parts with
  | nil => rfl
  | cons part r => rfl

theorem keyPart_tail (key : GroupKey) (i : Nat) :
    keyPart ⟨key.labels.tail⟩ i = keyPart key (i + 1) := by
  rw [keyPart, keyPart, List.getElem?_tail]

theorem keys_labelled (labels : List String) (key : GroupKey) :
    Fields.keys (labelled labels key.labels) = labels := by
  induction labels generalizing key with
  | nil => rfl
  | cons label r ih =>
      rw [labelled_cons]
      exact congrArg (label :: ·) (ih ⟨key.labels.tail⟩)

/-- Distinct labels have their parts of the key, whatever was in the row before. -/
theorem keepsKey_labelled {labels : List String} (distinct : labels.Nodup) (key : GroupKey)
    (fields : Fields) : KeepsKey labels key (fields.insertAll (labelled labels key.labels)) := by
  induction labels generalizing key fields with
  | nil =>
      intro i label here
      cases here
  | cons first r ih =>
      obtain ⟨new, distinct⟩ := List.nodup_cons.mp distinct
      intro i label here
      rw [labelled_cons, Fields.insertAll_cons]
      cases i with
      | zero =>
          cases here
          have absent : first ∉ Fields.keys (labelled r key.labels.tail) :=
            (keys_labelled r ⟨key.labels.tail⟩).symm ▸ new
          rw [Fields.get?_insertAll_of_notMem absent, Fields.get?_insert, if_pos rfl]
      | succ i =>
          rw [← keyPart_tail]
          exact ih distinct ⟨key.labels.tail⟩ _ i label (by simpa using here)

/-- A key whose parts are alike but for the one at a place; all are alike if it has no such
place. -/
def markedKey (length place : Nat) : GroupKey := ⟨(List.replicate length "a").set place "b"⟩

theorem keyPart_markedKey {length place i : Nat} (h : i < length) :
    keyPart (markedKey length place) i = .string (if place = i then "b" else "a") := by
  by_cases here : place = i
  · subst here
    simp [keyPart, markedKey, h]
  · simp [keyPart, markedKey, h, here]

section Row

variable {labels : List String} {more : Fields}

/-- At two places with one label a key that differs there cannot be read. -/
theorem nodup_of_keepsKey
    (keeps : ∀ key, KeepsKey labels key ((keyColumns labels key.labels).insertAll more)) :
    labels.Nodup := by
  rw [List.nodup_iff_getElem?_ne_getElem?]
  intro i j before inside same
  have there : labels[j]? = some labels[j] := List.getElem?_eq_getElem inside
  have marked := keeps (markedKey labels.length i) i labels[j] (same.trans there)
  have plain := keeps (markedKey labels.length i) j labels[j] there
  rw [keyPart_markedKey (Nat.lt_trans before inside), if_pos rfl] at marked
  rw [keyPart_markedKey inside, if_neg (Nat.ne_of_lt before), marked] at plain
  simp at plain

/-- A label that is inserted again reads the same for two keys that differ at its place. -/
theorem notMem_keys_of_keepsKey
    (keeps : ∀ key, KeepsKey labels key ((keyColumns labels key.labels).insertAll more))
    {label : String} (mem : label ∈ labels) : label ∉ more.keys := by
  intro again
  obtain ⟨i, inside, here⟩ := List.mem_iff_getElem.mp mem
  have place : labels[i]? = some label := here ▸ List.getElem?_eq_getElem inside
  obtain ⟨value, read⟩ := Fields.get?_insertAll_of_mem again
  have marked := keeps (markedKey labels.length i) i label place
  have plain := keeps (markedKey labels.length labels.length) i label place
  rw [read, keyPart_markedKey inside, if_pos rfl] at marked
  rw [read, keyPart_markedKey inside, if_neg (Nat.ne_of_gt inside), marked] at plain
  simp at plain

/-- A row whose own columns are inserted after those of the key keeps every key exactly if the
labels are fresh. -/
theorem keepsKey_iff_fresh :
    (∀ key, KeepsKey labels key ((keyColumns labels key.labels).insertAll more)) ↔
      Fresh labels more.keys := by
  constructor
  · intro keeps
    exact ⟨nodup_of_keepsKey keeps, fun _ mem => notMem_keys_of_keepsKey keeps mem⟩
  · intro fresh key i label here
    rw [Fields.get?_insertAll_of_notMem (fresh.apart label (List.mem_of_getElem? here))]
    exact keepsKey_labelled fresh.distinct key [] i label here

end Row

/-! ### Tables -/

/-- The rows of a report keep the keys of what they are about. -/
structure KeepsKeys (labels : List String) (groups inputs : List GroupKey) (r : Report) :
    Prop where
  /-- Every row of the summary keeps the key of its group. -/
  summary : List.Forall₂ (KeepsKey labels) groups r.summary
  /-- Every detailed row keeps the key of its input. -/
  detailed : List.Forall₂ (KeepsKey labels) inputs r.detailed

theorem forall₂_keepsKey_map {α : Type} {labels : List String} {key : α → GroupKey}
    {row : α → Fields} {xs : List α} :
    List.Forall₂ (KeepsKey labels) (xs.map key) (xs.map row) ↔
      ∀ x ∈ xs, KeepsKey labels (key x) (row x) := by
  rw [List.forall₂_map_left_iff, List.forall₂_map_right_iff, List.forall₂_same]

/-- The columns of a row of a summary beside those of the key. -/
def summaryColumns : List String := ["metric", "count", "mean", "min", "max", "median", "total"]

theorem summaryRow_keepsKey_iff (labels : List String) (row : SummaryRow) :
    (∀ key, KeepsKey labels key (summaryRow labels { row with key := key })) ↔
      Fresh labels summaryColumns := by
  have columns : Fields.keys (("metric", .string row.metric.name) ::
      statisticsColumns row.summary) = summaryColumns := by
    cases row.summary with
    | none => rfl
    | some s => rfl
  rw [← columns, ← keepsKey_iff_fresh]
  rfl

theorem summaryRows_keepsKey_iff (labels : List String) :
    (∀ rows : List SummaryRow,
      List.Forall₂ (KeepsKey labels) (rows.map SummaryRow.key) (summaryRows labels rows)) ↔
      Fresh labels summaryColumns := by
  constructor
  · intro keeps
    refine (summaryRow_keepsKey_iff labels ⟨⟨[]⟩, .cognitive, none⟩).mp ?_
    intro key
    exact forall₂_keepsKey_map.mp (keeps [⟨key, .cognitive, none⟩]) _ List.mem_cons_self
  · intro fresh rows
    refine forall₂_keepsKey_map.mpr ?_
    intro row _
    exact (summaryRow_keepsKey_iff labels row).mpr fresh row.key

end Report

namespace Analysis

open Report
open Scoring (PolicyKind)

/-! ### Scores -/

namespace ScoreAnalysis

/-- The rows of the report keep the keys of groups and files; every method has the key of its
file. -/
def KeepsKeys (a : ScoreAnalysis) : Prop :=
  a.report.KeepsKeys a.labels (a.summary.map SummaryRow.key)
    (if a.byMethod then a.files.flatMap fun f => f.methods.map fun _ => f.key
      else a.files.map fun f => f.key)

/-- The columns of the detailed rows beside those of the key. -/
def detailedColumns (metrics : List Metric) (byMethod : Bool) : List String :=
  if byMethod then
    ["file", "method", "line"] ++
      ((PolicyKind.all.map PolicyKind.metric).filter metrics.contains).map Metric.name ++
      ["syntax_ok"]
  else
    ["file", "loc", "methods", "comment_density"] ++ metrics.map Metric.name ++ ["syntax_ok"]

theorem fileRow_keepsKey_iff (a : ScoreAnalysis) (f : FileScores) :
    (∀ key, KeepsKey a.labels key (a.fileRow { f with key := key })) ↔
      Fresh a.labels (detailedColumns a.metrics false) := by
  have columns : Fields.keys ([("file", .string f.file), ("loc", .ofNat f.loc),
        ("methods", .ofNat f.methodCount), ("comment_density", .ofFloat? f.commentDensity)] ++
      a.metrics.map (fun m => (m.name, .ofFloat? (Assoc.get? m f.values))) ++
      [("syntax_ok", .bool f.syntaxOk)]) = detailedColumns a.metrics false := by
    simp [Fields.keys, detailedColumns]
  rw [← columns, ← keepsKey_iff_fresh]
  rfl

theorem methodRow_keepsKey_iff (a : ScoreAnalysis) (f : FileScores) (m : MethodRow) :
    (∀ key, KeepsKey a.labels key (a.methodRow { f with key := key } m)) ↔
      Fresh a.labels (detailedColumns a.metrics true) := by
  have columns : Fields.keys ([("file", .string f.file), ("method", .string m.name),
        ("line", .ofNat m.startLine)] ++
      a.policyMetrics.map (fun metric => (metric.name, scoreValue (Assoc.get? metric m.values))) ++
      [("syntax_ok", .bool f.syntaxOk)]) = detailedColumns a.metrics true := by
    simp [Fields.keys, detailedColumns, policyMetrics]
  rw [← columns, ← keepsKey_iff_fresh]
  rfl

/-- The methods of files, each with its file. -/
def methodsOf (files : List FileScores) : List (FileScores × MethodRow) :=
  files.flatMap fun f => f.methods.map fun m => (f, m)

theorem methodRows_keepsKey_iff (a : ScoreAnalysis) (files : List FileScores) :
    List.Forall₂ (KeepsKey a.labels) (files.flatMap fun f => f.methods.map fun _ => f.key)
        (files.flatMap fun f => f.methods.map (a.methodRow f)) ↔
      ∀ p ∈ methodsOf files, KeepsKey a.labels p.1.key (a.methodRow p.1 p.2) := by
  rw [← forall₂_keepsKey_map, methodsOf, List.map_flatMap, List.map_flatMap]
  simp only [List.map_map, Function.comp_def]

theorem keepsKeys_iff (labels : List String) (metrics : List Metric) (byMethod : Bool) :
    (∀ files summary skipped, KeepsKeys ⟨labels, metrics, byMethod, files, summary, skipped⟩) ↔
      Fresh labels (summaryColumns ++ detailedColumns metrics byMethod) := by
  rw [fresh_append]
  cases byMethod with
  | false =>
      constructor
      · intro keeps
        refine ⟨(summaryRows_keepsKey_iff labels).mp fun rows => (keeps [] rows 0).summary, ?_⟩
        let f : FileScores := ⟨⟨⟨[]⟩, []⟩, "", true, 0, 0, none, []⟩
        refine (fileRow_keepsKey_iff ⟨labels, metrics, false, [], [], 0⟩ f).mp ?_
        intro key
        exact forall₂_keepsKey_map.mp (keeps [{ f with key := key }] [] 0).detailed _
          List.mem_cons_self
      · rintro ⟨inSummary, inDetail⟩ files summary skipped
        refine ⟨(summaryRows_keepsKey_iff labels).mpr inSummary summary, ?_⟩
        refine forall₂_keepsKey_map.mpr ?_
        intro f _
        exact (fileRow_keepsKey_iff ⟨labels, metrics, false, files, summary, skipped⟩ f).mpr
          inDetail f.key
  | true =>
      constructor
      · intro keeps
        refine ⟨(summaryRows_keepsKey_iff labels).mp fun rows => (keeps [] rows 0).summary, ?_⟩
        let m : MethodRow := ⟨"", 0, 0, []⟩
        let f : FileScores := ⟨⟨⟨[]⟩, []⟩, "", true, 0, 0, none, [m]⟩
        refine (methodRow_keepsKey_iff ⟨labels, metrics, true, [], [], 0⟩ f m).mp ?_
        intro key
        exact (methodRows_keepsKey_iff ⟨labels, metrics, true, [], [], 0⟩ _).mp
          (keeps [{ f with key := key }] [] 0).detailed _ List.mem_cons_self
      · rintro ⟨inSummary, inDetail⟩ files summary skipped
        refine ⟨(summaryRows_keepsKey_iff labels).mpr inSummary summary, ?_⟩
        refine (methodRows_keepsKey_iff ⟨labels, metrics, true, files, summary, skipped⟩ _).mpr ?_
        rintro ⟨f, m⟩ _
        exact (methodRow_keepsKey_iff _ f m).mpr inDetail f.key

end ScoreAnalysis

/-! ### Imports -/

namespace ImportAnalysis

/-- The rows of the report keep the keys of groups and reports. -/
def KeepsKeys (a : ImportAnalysis) : Prop :=
  a.report.KeepsKeys a.labels (a.summary.map SummaryRow.key) (a.reports.map fun r => r.key)

/-- The columns of the detailed rows beside those of the key. -/
def detailedColumns : List String := ["report", "pmd_cognitive", "pmd_cyclomatic"]

theorem reportRow_keepsKey_iff (a : ImportAnalysis) (r : ImportedReport) :
    (∀ key, KeepsKey a.labels key (a.reportRow { r with key := key })) ↔
      Fresh a.labels detailedColumns := by
  rw [show detailedColumns = Fields.keys (("report", .string r.report) ::
    importedMetrics.map fun m => (m.name, .ofFloat? (Assoc.get? m r.values))) from rfl,
    ← keepsKey_iff_fresh]
  rfl

theorem keepsKeys_iff (labels : List String) :
    (∀ reports summary skipped, KeepsKeys ⟨labels, reports, summary, skipped⟩) ↔
      Fresh labels (summaryColumns ++ detailedColumns) := by
  rw [fresh_append]
  constructor
  · intro keeps
    refine ⟨(summaryRows_keepsKey_iff labels).mp fun rows => (keeps [] rows 0).summary, ?_⟩
    let r : ImportedReport := ⟨⟨⟨[]⟩, []⟩, ""⟩
    refine (reportRow_keepsKey_iff ⟨labels, [], [], 0⟩ r).mp ?_
    intro key
    exact forall₂_keepsKey_map.mp (keeps [{ r with key := key }] [] 0).detailed _
      List.mem_cons_self
  · rintro ⟨inSummary, inDetail⟩ reports summary skipped
    refine ⟨(summaryRows_keepsKey_iff labels).mpr inSummary summary, ?_⟩
    refine forall₂_keepsKey_map.mpr ?_
    intro r _
    exact (reportRow_keepsKey_iff ⟨labels, reports, summary, skipped⟩ r).mpr inDetail r.key

end ImportAnalysis

/-! ### Syntax -/

namespace SyntaxAnalysis

/-- The rows of the report keep the keys of groups and files. -/
def KeepsKeys (a : SyntaxAnalysis) : Prop :=
  a.report.KeepsKeys a.labels (a.summary.map Prod.fst) (a.files.map FileSyntax.key)

/-- The columns of the rows of the summary beside those of the key. -/
def groupColumns : List String := ["total", "correct", "incorrect", "success_rate"]

/-- The columns of the detailed rows beside those of the key. -/
def fileColumns : List String :=
  ["file", "syntax_ok", "methods", "method_lines", "error_count", "errors"]

theorem groupRow_keepsKey_iff (labels : List String) (g : GroupSyntax) :
    (∀ key, KeepsKey labels key (groupRow labels key g)) ↔ Fresh labels groupColumns :=
  keepsKey_iff_fresh

theorem fileRow_keepsKey_iff (labels : List String) (f : FileSyntax) :
    (∀ key, KeepsKey labels key (fileRow labels { f with key := key })) ↔
      Fresh labels fileColumns := by
  rw [show fileColumns = Fields.keys [("file", .string f.file), ("syntax_ok", .bool f.syntaxOk),
    ("methods", .ofNat f.methods), ("method_lines", .ofNat f.methodLines),
    ("error_count", .ofNat f.errors.length), ("errors", .string f.errorLocations)] from rfl,
    ← keepsKey_iff_fresh]
  rfl

/-- Under its own name the path is read, whatever the labels are. -/
theorem get?_fileRow_file (labels : List String) (f : FileSyntax) :
    (fileRow labels f).get? "file" = some (.string f.file) := by
  simp [fileRow, Fields.insertAll, Fields.get?_insert]

theorem keepsKeys_iff (labels : List String) :
    (∀ files summary skipped, KeepsKeys ⟨labels, files, summary, skipped⟩) ↔
      Fresh labels (groupColumns ++ fileColumns) := by
  rw [fresh_append]
  constructor
  · intro keeps
    constructor
    · refine (groupRow_keepsKey_iff labels .empty).mp ?_
      intro key
      exact (List.forall₂_cons.mp (keeps [] [(key, .empty)] 0).summary).1
    · let f : FileSyntax := ⟨⟨[]⟩, "", true, 0, 0, []⟩
      refine (fileRow_keepsKey_iff labels f).mp ?_
      intro key
      exact forall₂_keepsKey_map.mp (keeps [{ f with key := key }] [] 0).detailed _
        List.mem_cons_self
  · rintro ⟨inSummary, inDetail⟩ files summary skipped
    constructor
    · refine forall₂_keepsKey_map.mpr ?_
      rintro ⟨key, g⟩ _
      exact (groupRow_keepsKey_iff labels g).mpr inSummary key
    · refine forall₂_keepsKey_map.mpr ?_
      intro f _
      exact (fileRow_keepsKey_iff labels f).mpr inDetail f.key

end SyntaxAnalysis

/-! ### All analyses -/

/-- The rows of every analysis with some labels keep their keys exactly if the labels are fresh
beside the columns of its tables. -/
theorem keepsKeys_iff_fresh (labels : List String) :
    (∀ metrics byMethod,
      (∀ files summary skipped,
        ScoreAnalysis.KeepsKeys ⟨labels, metrics, byMethod, files, summary, skipped⟩) ↔
        Fresh labels (summaryColumns ++ ScoreAnalysis.detailedColumns metrics byMethod)) ∧
    ((∀ reports summary skipped, ImportAnalysis.KeepsKeys ⟨labels, reports, summary, skipped⟩) ↔
      Fresh labels (summaryColumns ++ ImportAnalysis.detailedColumns)) ∧
    ((∀ files summary skipped, SyntaxAnalysis.KeepsKeys ⟨labels, files, summary, skipped⟩) ↔
      Fresh labels (SyntaxAnalysis.groupColumns ++ SyntaxAnalysis.fileColumns)) :=
  ⟨ScoreAnalysis.keepsKeys_iff labels, ImportAnalysis.keepsKeys_iff labels,
    SyntaxAnalysis.keepsKeys_iff labels⟩

/-- The labels of a user who sets nothing are fresh beside every metric. -/
example : Fresh Settings.default.labels
    (summaryColumns ++ ScoreAnalysis.detailedColumns Metric.all false) := by
  decide

/-- A label may have the name of the column for the path of a file. Such settings are taken, and
the rows of files have the path in place of the key's part. -/
theorem fileLabel_loses_part :
    let settings := { Settings.default with labels := ["dataset", "file"] }
    let source : Files.InputFile :=
      ⟨"/d/x/A.java", ["d", "x", "A.java"], .ok (Text.Utf8.encode "class A \x7b \x7d")⟩
    settings.validate = .ok settings ∧
      ¬ (SyntaxAnalysis.ofFiles settings.labels [source]).KeepsKeys := by
  refine ⟨rfl, ?_⟩
  intro keeps
  have rows := keeps.detailed
  simp only [SyntaxAnalysis.ofFiles, SyntaxAnalysis.ofPartial, SyntaxPartial.ofFiles,
    SyntaxPartial.add, FileSyntax.ofFile?, Provider.treeOf?, Provider.java, Except.toOption,
    Option.bind_some, List.foldl_cons, List.foldl_nil, Option.map_some, SyntaxPartial.empty,
    List.nil_append, List.mergeSort_singleton, SyntaxAnalysis.report, List.map_cons,
    List.map_nil, List.forall₂_cons] at rows
  have part := rows.1 1 "file" rfl
  rw [SyntaxAnalysis.get?_fileRow_file] at part
  have path : "d/x/A.java" = "x" := Value.string.inj (Option.some.inj part)
  exact absurd path (by decide)

end Analysis

end SuiteMetrics
