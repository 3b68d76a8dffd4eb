import SuiteMetrics.Proofs.WrittenJson
import SuiteMetrics.Proofs.WrittenReport

/-!
A report as JSON.

What it is for a document to list files with their violations: objects with the fields of a report
and any others, in any order (`ListsFiles`). The reader of reports finds exactly these violations
(`ofText_of_writesJson`).
-/

namespace SuiteMetrics.Violations

open Json (Document Spelled)
open Text (Blanks)

/-- A field of an object. All keys are texts, and no other field has this key. -/
def HasField (fields : List (Option String × Document)) (key : String) (d : Document) : Prop :=
  ∃ before after, fields = before ++ (some key, d) :: after ∧
    ∀ f ∈ before ++ after, ∃ other, f.1 = some other ∧ other ≠ key

/-- An object that lists a violation by its rule and message. -/
def ListsViolation (v : String × String) (d : Document) : Prop :=
  ∃ fields, d = .object fields ∧ HasField fields "rule" (.string v.1) ∧
    HasField fields "description" (.string v.2)

/-- An object that lists a file with its violations. -/
def ListsFile (f : FileEntry) (d : Document) : Prop :=
  ∃ fields items, d = .object fields ∧ HasField fields "filename" (.string f.file) ∧
    HasField fields "violations" (.array items) ∧ List.Forall₂ ListsViolation f.violations items

/-- An object that lists the files of a report. -/
def ListsFiles (fs : List FileEntry) (d : Document) : Prop :=
  ∃ fields items, d = .object fields ∧ HasField fields "files" (.array items) ∧
    List.Forall₂ ListsFile fs items

/-- A text that writes a report as JSON. -/
def WritesJson (fs : List FileEntry) (text : List Char) : Prop :=
  ∃ d written, ∃ after : Blanks, text = written ++ after ∧ Spelled (.value d) written ∧
    ListsFiles fs d

/-! ### Reading the document -/

theorem field?_of_hasField {fields : List (Option String × Document)} {key : String}
    {d : Document} (h : HasField fields key d) : field? key fields = some (some d) := by
  obtain ⟨before, after, rfl, others⟩ := h
  have texts : ¬ (before ++ (some key, d) :: after).any (fun f => f.1.isNone) = true := by
    intro some_
    obtain ⟨f, hf, noText⟩ := List.any_eq_true.1 some_
    obtain hf | rfl | hf : f ∈ before ∨ f = (some key, d) ∨ f ∈ after := by simpa using hf
    · obtain ⟨other, text, -⟩ := others f (List.mem_append_left _ hf)
      simp [text] at noText
    · simp at noText
    · obtain ⟨other, text, -⟩ := others f (List.mem_append_right _ hf)
      simp [text] at noText
  have passed (fs : List (Option String × Document)) (sub : ∀ f ∈ fs, f ∈ before ++ after) :
      fs.filter (fun f => f.1 = some key) = [] := by
    refine List.filter_eq_nil_iff.2 fun f hf => ?_
    obtain ⟨other, text, ne⟩ := others f (sub f hf)
    simpa [text] using ne
  have only : (before ++ (some key, d) :: after).filter (fun f => f.1 = some key) =
      [(some key, d)] := by
    rw [List.filter_append, List.filter_cons_of_pos (by simp),
      passed before fun f => List.mem_append_left _, passed after fun f => List.mem_append_right _]
    rfl
  rw [field?, if_neg texts, only]

theorem violationOf?_of_lists {file : String} {v : String × String} {d : Document}
    (h : ListsViolation v d) : violationOf? file d = some ⟨file, v.1, v.2.toList⟩ := by
  obtain ⟨fields, rfl, rule, description⟩ := h
  simp [violationOf?, field?_of_hasField rule, field?_of_hasField description, textOf?]

/-- Reading the elements of an array one by one. -/
theorem mapM_of_forall₂ {α β : Type} {lists : α → Document → Prop} {as : List α}
    {ds : List Document} (all : List.Forall₂ lists as ds) (read : Document → Option β)
    (value : α → β) (each : ∀ a d, lists a d → read d = some (value a)) :
    ds.mapM read = some (as.map value) := by
  induction all with
  | nil => rfl
  | cons here _ ih => simp [List.mapM_cons, each _ _ here, ih]

theorem violationsOf?_of_lists {f : FileEntry} {d : Document} (h : ListsFile f d) :
    violationsOf? d = some f.list := by
  obtain ⟨fields, items, rfl, name, violations, all⟩ := h
  have read : items.mapM (violationOf? f.file) = some f.list :=
    mapM_of_forall₂ all _ _ fun _ _ => violationOf?_of_lists
  simp [violationsOf?, field?_of_hasField name, field?_of_hasField violations, textOf?, itemsOf?,
    read]

theorem violationsOfDocument?_of_lists {fs : List FileEntry} {d : Document}
    (h : ListsFiles fs d) : violationsOfDocument? d = some (fs.flatMap FileEntry.list) := by
  obtain ⟨fields, items, rfl, files, all⟩ := h
  have read : items.mapM violationsOf? = some (fs.map FileEntry.list) :=
    mapM_of_forall₂ all _ _ fun _ _ => violationsOf?_of_lists
  simp [violationsOfDocument?, field?_of_hasField files, itemsOf?, read, List.flatMap_def]

/-- An object is written from a brace on. -/
theorem brace_of_spelled {fields : List (Option String × Document)} {written : List Char}
    (h : Spelled (.value (.object fields)) written) :
    ∃ (b : Blanks) (r : List Char), written = b ++ '\x7b' :: r := by
  cases h with
  | emptyObject b inner => exact ⟨b, _, rfl⟩
  | object b _ => exact ⟨b, _, rfl⟩

/-- A report written as JSON is read with exactly its violations. -/
theorem ofText_of_writesJson {fs : List FileEntry} {text : List Char} (h : WritesJson fs text) :
    Report.ofText (String.ofList text) = .ofViolations (fs.flatMap FileEntry.list) := by
  obtain ⟨d, written, after, rfl, spelled, lists⟩ := h
  obtain ⟨fields, items, rfl, -⟩ := id lists
  obtain ⟨b, r, brace⟩ := brace_of_spelled spelled
  have begins : Text.trimStart (written ++ after.1) = '\x7b' :: (r ++ after.1) := by
    rw [brace, List.append_assoc, List.cons_append]
    exact Text.trimStart_append b.2 rfl
  have read : violationsOfText? (written ++ after.1) = some (fs.flatMap FileEntry.list) := by
    rw [violationsOfText?, begins]
    simp only [Json.ofText?_of_spelled spelled after, Option.bind_some,
      violationsOfDocument?_of_lists lists]
  rw [Report.ofText, String.toList_ofList, read]

end SuiteMetrics.Violations
