import Mathlib.Data.List.Forall2
import SuiteMetrics.Render.Csv
import SuiteMetrics.Render.Csv.Reader

/-!
Tables are read back as they were written.

Whatever characters a field has, its written form is read back as the field (`readFrom_field`), so
the written form of any records, none of them without fields, is read back as these records
(`recordsOf?_write`). For a table of objects these are its columns, and then for each object the
texts of its values in the order of the columns (`read?_table`).
-/

namespace SuiteMetrics.Render.Csv

open Json (Value Fields)

/-! ### Fields -/

theorem Found.prepend_nil : Found.prepend [] = id := rfl

theorem Found.prepend_comp (s t : List Char) :
    Found.prepend s ∘ Found.prepend t = Found.prepend (s ++ t) := by
  funext f
  exact congrArg (Found.mk · f.fields f.records) (List.append_assoc s t f.field).symm

theorem readFrom_quoted_cons {c : Char} (hc : c ≠ '"') (r : List Char) :
    readFrom .quoted (c :: r) = (readFrom .quoted r).map (.prepend [c]) := by
  rw [readFrom, if_neg hc]

theorem readFrom_bare_cons {place : Place} (hp : place = .opening ∨ place = .bare) {c : Char}
    (hc : forcesQuotes c = false) (r : List Char) :
    readFrom place (c :: r) = (readFrom .bare r).map (.prepend [c]) := by
  simp only [forcesQuotes, Bool.or_eq_false_iff, beq_eq_false_iff_ne, and_assoc] at hc
  obtain ⟨comma, quote, lineFeed, carriageReturn⟩ := hc
  rcases hp with rfl | rfl
  · simp [readFrom, comma, quote, lineFeed, carriageReturn]
  · simp [readFrom, comma, quote, lineFeed, carriageReturn]

/-- Between quotes, what was doubled is read up to the quote at its end. -/
theorem readFrom_doubleQuotes (s r : List Char) :
    readFrom .quoted (doubleQuotes s ++ '"' :: r) = (readFrom .closed r).map (.prepend s) := by
  induction s with
  | nil =>
      rw [Found.prepend_nil, Option.map_id]
      rfl
  | cons c s ih =>
      have more : ((readFrom .closed r).map (Found.prepend s)).map (Found.prepend [c]) =
          (readFrom .closed r).map (Found.prepend (c :: s)) := by
        rw [Option.map_map, Found.prepend_comp]
        rfl
      by_cases quote : c = '"'
      · subst quote
        rw [← more, ← ih]
        rfl
      · have plain : doubleQuotes (c :: s) = c :: doubleQuotes s := by
          simp [doubleQuotes, quote]
        rw [plain, List.cons_append, readFrom_quoted_cons quote, ih, more]

/-- Characters that need no quotes are read as they stand. -/
theorem readFrom_bare {s : List Char} (plain : ∀ c ∈ s, forcesQuotes c = false) (r : List Char) :
    readFrom .bare (s ++ r) = (readFrom .bare r).map (.prepend s) := by
  induction s with
  | nil => rw [Found.prepend_nil, Option.map_id]; rfl
  | cons c s ih =>
      obtain ⟨hc, hs⟩ := List.forall_mem_cons.mp plain
      rw [List.cons_append, readFrom_bare_cons (.inr rfl) hc, ih hs, Option.map_map,
        Found.prepend_comp]
      rfl

/-- What follows a field: a comma or a line feed. -/
inductive EndsField : List Char → Prop where
  | comma (r : List Char) : EndsField (',' :: r)
  | lineFeed (r : List Char) : EndsField ('\n' :: r)

/-- At the end of a field, it makes no difference whether it was bare, in quotes or empty. -/
theorem EndsField.readFrom_eq {r : List Char} (h : EndsField r) :
    readFrom .bare r = readFrom .opening r ∧ readFrom .closed r = readFrom .opening r := by
  cases h with
  | comma => exact ⟨rfl, rfl⟩
  | lineFeed => exact ⟨rfl, rfl⟩

/-- The written form of a field is read as the field, whatever its characters are. -/
theorem readFrom_field (s : List Char) {r : List Char} (h : EndsField r) :
    readFrom .opening (field s ++ r) = (readFrom .opening r).map (.prepend s) := by
  obtain ⟨bare, closed⟩ := h.readFrom_eq
  unfold field
  split
  case isTrue =>
      have opened : readFrom .opening ('"' :: doubleQuotes s ++ ['"'] ++ r) =
          readFrom .quoted (doubleQuotes s ++ '"' :: r) := by
        simp [readFrom]
      rw [opened, readFrom_doubleQuotes, closed]
  case isFalse some_ =>
      have plain : ∀ c ∈ s, forcesQuotes c = false := by
        intro c mem
        exact Bool.eq_false_iff.mpr fun forced => some_ (List.any_eq_true.mpr ⟨c, mem, forced⟩)
      cases s with
      | nil => rw [Found.prepend_nil, Option.map_id]; rfl
      | cons c s =>
          obtain ⟨hc, hs⟩ := List.forall_mem_cons.mp plain
          rw [List.cons_append, readFrom_bare_cons (.inl rfl) hc, readFrom_bare hs, bare,
            Option.map_map, Found.prepend_comp]
          rfl

/-! ### Records -/

theorem recordsOf?_of_ne_nil {s : List Char} (h : s ≠ []) :
    recordsOf? s = (readFrom .opening s).map Found.all :=
  if_neg fun empty => h (List.isEmpty_iff.mp empty)

theorem readFrom_lineFeed (r : List Char) :
    readFrom .opening ('\n' :: r) = (recordsOf? r).map .nextRecord := by
  cases r with
  | nil => rfl
  | cons c r =>
      rw [recordsOf?_of_ne_nil (List.cons_ne_nil c r), Option.map_map]
      rfl

theorem record_singleton (s : List Char) : record [s] = field s ++ ['\n'] := by
  rw [record, List.map_singleton, List.intercalate_singleton]

theorem record_cons_cons (s t : List Char) (ss : List (List Char)) :
    record (s :: t :: ss) = field s ++ ',' :: record (t :: ss) := by
  simp only [record, List.map_cons, List.intercalate_cons_cons, List.append_assoc,
    List.cons_append, List.nil_append]

/-- The written fields of a record are read as the record. -/
theorem readFrom_record (s : List Char) (ss : List (List Char)) (r : List Char) :
    readFrom .opening (record (s :: ss) ++ r) = (recordsOf? r).map (Found.mk s ss) := by
  induction ss generalizing s with
  | nil =>
      rw [record_singleton, List.append_assoc, List.singleton_append,
        readFrom_field s (.lineFeed r), readFrom_lineFeed, Option.map_map]
      refine Option.map_congr fun records _ => ?_
      exact congrArg (Found.mk · [] records) (List.append_nil s)
  | cons t ss ih =>
      have next : readFrom .opening (',' :: (record (t :: ss) ++ r)) =
          (readFrom .opening (record (t :: ss) ++ r)).map .nextField := rfl
      rw [record_cons_cons, List.append_assoc, List.cons_append,
        readFrom_field s (.comma _), next, ih, Option.map_map, Option.map_map]
      refine Option.map_congr fun records _ => ?_
      exact congrArg (Found.mk · (t :: ss) records) (List.append_nil s)

/-- Written records are read back, if none is without fields. -/
theorem recordsOf?_write {records : List (List (List Char))}
    (some_ : ∀ fields ∈ records, fields ≠ []) : recordsOf? (write records) = some records := by
  induction records with
  | nil => rfl
  | cons fields records ih =>
      obtain ⟨here, later⟩ := List.forall_mem_cons.mp some_
      obtain ⟨s, ss, rfl⟩ := List.exists_cons_of_ne_nil here
      have written : write ((s :: ss) :: records) = record (s :: ss) ++ write records :=
        List.flatMap_cons
      have ends : record (s :: ss) ≠ [] :=
        List.append_ne_nil_of_right_ne_nil _ (List.cons_ne_nil _ _)
      rw [written, recordsOf?_of_ne_nil (List.append_ne_nil_of_left_ne_nil ends _),
        readFrom_record, ih later]
      rfl

/-- A written table is read as its records. -/
theorem read?_write {records : List (List String)} (some_ : ∀ fields ∈ records, fields ≠ []) :
    read? (String.ofList (write (records.map fun fields => fields.map String.toList))) =
      some records := by
  have written : ∀ fields ∈ records.map fun fields => fields.map String.toList, fields ≠ [] := by
    rw [List.forall_mem_map]
    intro fields mem
    rw [ne_eq, List.map_eq_nil_iff]
    exact some_ fields mem
  have same : String.ofList ∘ String.toList = id := funext fun _ => String.ofList_toList
  rw [read?, String.toList_ofList, recordsOf?_write written, Option.map_some, List.map_map]
  refine congrArg some (List.map_id'' (fun fields => ?_) records)
  rw [Function.comp_apply, List.map_map, same, List.map_id]

/-! ### Tables of objects -/

/-- What stands in a table for the value of a row in a column, which may be missing. -/
inductive CellText : Option Value → String → Prop where
  | missing : CellText none "N/A"
  | null : CellText (some .null) "N/A"
  | true : CellText (some (.bool true)) "true"
  | false : CellText (some (.bool false)) "false"
  | number (n : Json.Number) : CellText (some (.number n)) n.text
  | string (s : String) : CellText (some (.string s)) s
  | array (items : List Value) : CellText (some (.array items)) (Value.array items).compact
  | object (fields : Fields) : CellText (some (.object fields)) (Value.object fields).compact

theorem CellText.unique {value : Option Value} {s t : String} (hs : CellText value s)
    (ht : CellText value t) : s = t := by
  cases hs <;> cases ht <;> rfl

theorem cellText_plainText (row : Fields) (column : String) :
    CellText (row.get? column) (plainText (cell row column)) := by
  unfold cell
  cases row.get? column with
  | none => exact .missing
  | some value =>
      cases value with
      | null => exact .null
      | bool b =>
          cases b with
          | true => exact .true
          | false => exact .false
      | number n => exact .number n
      | string s => exact .string s
      | array items => exact .array items
      | object fields => exact .object fields

/-- A table whose first element is an object with some key is read back as a header with the keys of
that object in order, and one record for every object in order. Under each key, the record has the
text of the object's value. -/
theorem read?_table (first : Fields) (others : List Value) (keys : first ≠ []) :
    ∃ records, read? (table (.object first :: others)) = some (first.keys :: records) ∧
      List.Forall₂
        (fun (row : Fields) record =>
          List.Forall₂ (fun key text => CellText (row.get? key) text) first.keys record)
        (first :: others.filterMap Value.fields?) records := by
  have columns : first.keys ≠ [] := by
    rwa [Fields.keys, ne_eq, List.map_eq_nil_iff]
  let texts (row : Fields) : List String :=
    first.keys.map fun column => plainText (cell row column)
  let objects := rows (.object first :: others)
  have written : records (.object first :: others) =
      (first.keys :: objects.map texts).map fun fields => fields.map String.toList := by
    rw [records, columns?, List.map_cons, List.map_map]
    refine congrArg (_ :: ·) (List.map_congr_left fun row _ => ?_)
    exact (List.map_map : (texts row).map String.toList = _).symm
  refine ⟨objects.map texts, ?_, ?_⟩
  · rw [table, written]
    refine read?_write (List.forall_mem_cons.mpr ⟨columns, ?_⟩)
    rw [List.forall_mem_map]
    intro row _
    rwa [ne_eq, List.map_eq_nil_iff]
  · change List.Forall₂ _ objects _
    rw [List.forall₂_map_right_iff, List.forall₂_same]
    intro row _
    rw [List.forall₂_map_right_iff, List.forall₂_same]
    intro column _
    exact cellText_plainText row column

/-- An object whose keys and values have characters that force quotes, and an empty key. -/
def awkwardObject : Fields := [("a,b", .string "say \"hi\"\r"), ("", .null)]

/-- An element that is no object, and an object without one of the keys. -/
def awkwardRest : List Value :=
  [.number (.integer 7), .object [("", .array [.string "x", .bool true]), ("other", .bool false)]]

/-- The awkward object and the other one are read back as they are. -/
theorem read?_awkwardTable :
    awkwardObject ≠ [] ∧ read? (table (.object awkwardObject :: awkwardRest)) =
      some [["a,b", ""], ["say \"hi\"\r", "N/A"], ["N/A", "[\"x\",true]"]] := by
  have keys : awkwardObject ≠ [] := List.cons_ne_nil _ _
  obtain ⟨records, read, texts⟩ := read?_table awkwardObject awkwardRest keys
  obtain _ | ⟨first, _ | ⟨second, _ | _⟩⟩ := texts
  obtain _ | ⟨quoted, _ | ⟨nothing, _ | _⟩⟩ := first
  obtain _ | ⟨other, _ | ⟨nested, _ | _⟩⟩ := second
  obtain rfl := quoted.unique (.string _)
  obtain rfl := nothing.unique .null
  obtain rfl := other.unique .missing
  obtain rfl := nested.unique (.array _)
  refine ⟨keys, read.trans ?_⟩
  decide +kernel

end SuiteMetrics.Render.Csv
