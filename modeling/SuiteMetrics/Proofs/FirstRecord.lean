import SuiteMetrics.Proofs.MeasuredValues
import SuiteMetrics.Proofs.TextParts

/-!
The record that decides a score.

The first record of a file decides its score, whatever the lines behind it say. A line is trimmed
before its fields are parted, so a tab at one of its ends parts nothing: a line whose score is left
empty is no record, and a later one decides. Read like this, the first record decides every score
(`scoreIn?_eq_some_iff_first`). A line is the record that it is written as exactly when it has a
text on either side of its first tab (`record?_as_written_iff`), and where all lines have up to the
first written record of the file, that one decides (`first_record_decides`).
-/

namespace SuiteMetrics.Readability

open Text (isBlank trim)

/-! ### Lines and their fields -/

/-- The record that a line is written as: the texts before and behind its first tab. A line that
begins in an ignored way, blanks in front of it apart, is none. -/
def writtenRecord? (ignored : List String) (line : List Char) : Option (List Char × List Char) :=
  if isIgnored ignored (trim line) then none else Text.splitFirst '\t' line

/-- A line has a text on either side of its first tab, if it has a tab. -/
def FieldsFilled (line : List Char) : Prop :=
  ∀ r ∈ Text.splitFirst '\t' line, trim r.1 ≠ [] ∧ trim r.2 ≠ []

instance (line : List Char) : Decidable (FieldsFilled line) :=
  inferInstanceAs (Decidable (∀ r ∈ Text.splitFirst '\t' line, _))

/-- A record without the blanks around its fields. -/
def bare (r : List Char × List Char) : List Char × List Char := (trim r.1, trim r.2)

section Tab

variable {field score : List Char}

/-- A line keeps its first tab if there is a text on either side of it. -/
theorem trim_of_filled (filled : trim field ≠ []) (filled' : trim score ≠ []) :
    ∃ field' score', trim (field ++ '\t' :: score) = field' ++ '\t' :: score' ∧
      field' <:+ field ∧ trim field' = trim field ∧ trim score' = trim score := by
  obtain ⟨front, back, split, blankFront, blankBack⟩ := Text.trimBy_split isBlank field
  obtain ⟨front', back', split', blankFront', blankBack'⟩ := Text.trimBy_split isBlank score
  refine ⟨trim field ++ back, front' ++ trim score, ?_, ⟨front, split.symm⟩, ?_, ?_⟩
  · have line : field ++ '\t' :: score =
        front ++ (((trim field ++ back) ++ '\t' :: (front' ++ trim score)) ++ back') := by
      conv_lhs => rw [split, split']
      simp [trim]
    rw [line]
    refine (Text.trimBy_append blankFront blankBack' _).trans (Text.trimBy_eq_self ?_ ?_)
    · intro c hc
      rw [List.append_assoc, List.head?_append_of_ne_nil _ filled] at hc
      exact Text.head?_trimBy hc
    · intro c hc
      rw [← List.cons_append, ← List.append_assoc, List.getLast?_append_of_ne_nil _ filled'] at hc
      exact Text.getLast?_trimBy hc
  · exact (Text.trimBy_append_right blankBack _).trans Text.trimBy_trimBy
  · exact (Text.trimBy_append_left blankFront' _).trans Text.trimBy_trimBy

/-- A line loses its first tab with the blanks in front of it. -/
theorem trim_of_blank_field (blank : trim field = []) :
    trim (field ++ '\t' :: score) = trim score := by
  have front : ∀ c ∈ field ++ ['\t'], isBlank c = true := by
    rw [List.forall_mem_append, List.forall_mem_singleton]
    exact ⟨Text.trimBy_eq_nil_iff.1 blank, rfl⟩
  have := Text.trimBy_append_left front score
  rwa [List.append_assoc] at this

/-- A line loses its first tab with the blanks behind it. -/
theorem trim_of_blank_score (blank : trim score = []) :
    trim (field ++ '\t' :: score) = trim field := by
  have back : ∀ c ∈ '\t' :: score, isBlank c = true :=
    List.forall_mem_cons.2 ⟨rfl, Text.trimBy_eq_nil_iff.1 blank⟩
  exact Text.trimBy_append_right back field

/-- What is before a tab of a trimmed text is more than blanks. -/
theorem trim_ne_nil_of_tab {s : List Char} (same : trim s = field ++ '\t' :: score) :
    trim field ≠ [] := by
  intro blank
  have all : ∀ c ∈ field ++ ['\t'], isBlank c = true := by
    rw [List.forall_mem_append, List.forall_mem_singleton]
    exact ⟨Text.trimBy_eq_nil_iff.1 blank, rfl⟩
  obtain ⟨c, r, first⟩ : ∃ c r, field ++ ['\t'] = c :: r :=
    List.exists_cons_of_ne_nil (by simp)
  have head : (trim s).head? = some c := by
    rw [same, show field ++ '\t' :: score = (field ++ ['\t']) ++ score by simp, first]
    rfl
  have plain : isBlank c = false := Text.head?_trimBy head
  rw [all c (by rw [first]; exact List.mem_cons_self)] at plain
  simp at plain

end Tab

/-- A line is read as the record that it is written as, blanks around the fields apart, exactly when
it is ignored or has a text on either side of its first tab. -/
theorem record?_as_written_iff {ignored : List String} {line : List Char} :
    (record? ignored line).map bare = (writtenRecord? ignored line).map bare ↔
      isIgnored ignored (trim line) = true ∨ FieldsFilled line := by
  unfold record? writtenRecord?
  dsimp only
  by_cases skipped : isIgnored ignored (trim line) = true
  · simp [skipped]
  rw [if_neg skipped, if_neg skipped, or_iff_right skipped]
  by_cases tab : '\t' ∈ line
  · obtain ⟨field, score, rfl, plain⟩ := List.eq_append_cons_of_mem tab
    have filled : FieldsFilled (field ++ '\t' :: score) ↔ trim field ≠ [] ∧ trim score ≠ [] := by
      simp [FieldsFilled, Text.splitFirst_append plain]
    rw [Text.splitFirst_append plain, filled]
    constructor
    · intro same
      refine ⟨fun blank => ?_, fun blank => ?_⟩
      · rw [trim_of_blank_field blank] at same
        obtain ⟨⟨field', score'⟩, found, same⟩ := Option.map_eq_some_iff.1 same
        obtain ⟨split, -⟩ := Text.splitFirst_eq_some_iff.1 found
        exact trim_ne_nil_of_tab split ((congrArg Prod.fst same).trans blank)
      · have none_ : '\t' ∉ trim field := fun mem => plain (Text.mem_of_mem_trimBy mem)
        rw [trim_of_blank_score blank, Text.splitFirst_eq_none none_] at same
        simp at same
    · rintro ⟨filled, filled'⟩
      obtain ⟨field', score', same, suffix_, sameField, sameScore⟩ := trim_of_filled filled filled'
      rw [same, Text.splitFirst_append fun mem => plain (suffix_.mem mem)]
      simp [bare, sameField, sameScore]
  · have none_ : '\t' ∉ trim line := fun mem => tab (Text.mem_of_mem_trimBy mem)
    rw [Text.splitFirst_eq_none tab, Text.splitFirst_eq_none none_]
    simp [FieldsFilled, Text.splitFirst_eq_none tab]

/-! ### The first record of a file -/

/-- The score in a line, bare, if the line is read as a record of a name. -/
def scoreOf? (read : List Char → Option (List Char × List Char)) (name line : List Char) :
    Option (List Char) :=
  ((read line).filter fun r => baseName r.1 = name).map fun r => trim r.2

/-- The first line that is read as a record of a name holds a finite number. -/
def FirstHolds (read : List Char → Option (List Char × List Char)) (name : List Char)
    (lines : List (List Char)) (x : Float) : Prop :=
  ∃ before line after score, lines = before ++ line :: after ∧
    (∀ l ∈ before, scoreOf? read name l = none) ∧ scoreOf? read name line = some score ∧
    Decimal.readFloat? score = some x ∧ x.isFinite = true

/-- A line of which it makes no difference to a name whether it is read or taken as it is written:
it is ignored, has a text on either side of its first tab, or is no record of the name at all. -/
def AsWritten (ignored : List String) (name line : List Char) : Prop :=
  isIgnored ignored (trim line) = true ∨ FieldsFilled line ∨
    (scoreOf? (record? ignored) name line = none ∧
      scoreOf? (writtenRecord? ignored) name line = none)

instance (ignored : List String) (name line : List Char) :
    Decidable (AsWritten ignored name line) :=
  inferInstanceAs (Decidable (_ ∨ _))

/-- The lines up to the first one that is written as a record of a name are as they are written. -/
def WrittenToFirst (ignored : List String) (name : List Char) : List (List Char) → Prop
  | [] => True
  | line :: rest =>
    AsWritten ignored name line ∧
      (scoreOf? (writtenRecord? ignored) name line = none → WrittenToFirst ignored name rest)

instance decidableWrittenToFirst (ignored : List String) (name : List Char) :
    (lines : List (List Char)) → Decidable (WrittenToFirst ignored name lines)
  | [] => isTrue trivial
  | _ :: rest =>
    have := decidableWrittenToFirst ignored name rest
    inferInstanceAs (Decidable (_ ∧ (_ → _)))

section

variable {read read' : List Char → Option (List Char × List Char)} {ignored : List String}
  {name printed : List Char} {x : Float}

theorem firstHolds_iff {lines : List (List Char)} :
    FirstHolds read name lines x ↔ ∃ score, lines.findSome? (scoreOf? read name) = some score ∧
      Decimal.readFloat? score = some x ∧ x.isFinite = true := by
  simp only [List.findSome?_eq_some_iff]
  constructor
  · rintro ⟨before, line, after, score, split, others, own, number⟩
    exact ⟨score, ⟨before, line, after, split, own, others⟩, number⟩
  · rintro ⟨score, ⟨before, line, after, split, own, others⟩, number⟩
    exact ⟨before, line, after, score, split, others, own, number⟩

/-- The score of a record is what is bare in it. -/
theorem scoreOf?_eq_bare {line : List Char} :
    scoreOf? read name line =
      (((read line).map bare).filter fun r => baseName r.1 = name).map Prod.snd := by
  cases found : read line with
  | none => simp [scoreOf?, found]
  | some r =>
      have same : baseName (trim r.1) = baseName r.1 := by
        rw [baseName, baseName, trim, trim, Text.trimBy_trimBy]
      by_cases own : baseName r.1 = name
      · simp [scoreOf?, found, Option.filter, bare, same, own]
      · simp [scoreOf?, found, Option.filter, bare, same, own]

theorem AsWritten.scoreOf?_eq {line : List Char} (h : AsWritten ignored name line) :
    scoreOf? (record? ignored) name line = scoreOf? (writtenRecord? ignored) name line := by
  rcases h with skipped | filled | ⟨none_, none_'⟩
  · rw [scoreOf?_eq_bare, scoreOf?_eq_bare, record?_as_written_iff.2 (.inl skipped)]
  · rw [scoreOf?_eq_bare, scoreOf?_eq_bare, record?_as_written_iff.2 (.inr filled)]
  · rw [none_, none_']

/-- Lines behind the first written record are not reached. -/
theorem WrittenToFirst.findSome?_eq {lines : List (List Char)}
    (h : WrittenToFirst ignored name lines) :
    lines.findSome? (scoreOf? (record? ignored) name) =
      lines.findSome? (scoreOf? (writtenRecord? ignored) name) := by
  induction lines with
  | nil => rfl
  | cons line rest ih =>
      obtain ⟨asWritten, later⟩ := h
      rw [List.findSome?_cons, List.findSome?_cons, asWritten.scoreOf?_eq]
      cases own : scoreOf? (writtenRecord? ignored) name line with
      | some score => rfl
      | none => exact ih (later own)

/-- The first record of a name is the one in the first line that is one. -/
theorem find?_filterMap_eq (lines : List (List Char)) :
    ((lines.filterMap read).find? fun r => baseName r.1 = name).map (fun r => trim r.2) =
      lines.findSome? (scoreOf? read name) := by
  induction lines with
  | nil => rfl
  | cons line rest ih =>
      rw [List.findSome?_cons, scoreOf?]
      cases found : read line with
      | none =>
          rw [List.filterMap_cons_none found]
          exact ih
      | some r =>
          rw [List.filterMap_cons_some found]
          by_cases own : baseName r.1 = name
          · simp [own, Option.filter]
          · rw [List.find?_cons_of_neg (by simpa using own), ih]
            simp [own, Option.filter]

/-- The first record of a file decides its score. -/
theorem scoreIn?_eq_some_iff_first :
    scoreIn? ignored name printed = some x ↔
      FirstHolds (record? ignored) name (Text.lines printed) x := by
  rw [firstHolds_iff, ← find?_filterMap_eq, scoreIn?, records]
  cases ((Text.lines printed).filterMap (record? ignored)).find? fun r => baseName r.1 = name with
  | none => simp
  | some r => simp [finite?_eq_some_iff]

end

/-- The first record of a file decides its score, whatever later lines say. A line is the record
that it is written as, blanks around the fields apart, exactly when it is ignored or has a text on
either side of its first tab. So the first record that is written decides if the lines up to it are
as they are written. -/
theorem first_record_decides (ignored : List String) (name printed : List Char) :
    (∀ x, scoreIn? ignored name printed = some x ↔
        FirstHolds (record? ignored) name (Text.lines printed) x) ∧
      (∀ line, (record? ignored line).map bare = (writtenRecord? ignored line).map bare ↔
        isIgnored ignored (trim line) = true ∨ FieldsFilled line) ∧
      (WrittenToFirst ignored name (Text.lines printed) → ∀ x,
        scoreIn? ignored name printed = some x ↔
          FirstHolds (writtenRecord? ignored) name (Text.lines printed) x) := by
  refine ⟨fun x => scoreIn?_eq_some_iff_first, fun line => record?_as_written_iff, ?_⟩
  intro written x
  rw [scoreIn?_eq_some_iff_first, firstHolds_iff, firstHolds_iff, written.findSome?_eq]

/-- A line of another file that ends with a tab does no harm, and a score that is no number hides
the later lines. -/
theorem first_record_decides_noNumber :
    WrittenToFirst ["[INFO]"] "A.java".toList
        (Text.lines "B.java\t\n A.java \tn/a\nA.java\t\nA.java\t0.5\n".toList) ∧
      ∀ x, scoreIn? ["[INFO]"] "A.java".toList
          "B.java\t\n A.java \tn/a\nA.java\t\nA.java\t0.5\n".toList = some x ↔
        FirstHolds (writtenRecord? ["[INFO]"]) "A.java".toList
          (Text.lines "B.java\t\n A.java \tn/a\nA.java\t\nA.java\t0.5\n".toList) x :=
  ⟨by decide, (first_record_decides ["[INFO]"] "A.java".toList
    "B.java\t\n A.java \tn/a\nA.java\t\nA.java\t0.5\n".toList).2.2 (by decide)⟩

/-- The first record that is written leaves the score empty, which is no number, and yet a later
record gives the score. -/
theorem later_record_decides_emptyScore :
    (∀ x, ¬FirstHolds (writtenRecord? []) "A.java".toList
        (Text.lines "A.java\t\nA.java\t0.5\n".toList) x) ∧
      scoreIn? [] "A.java".toList "A.java\t\nA.java\t0.5\n".toList = some 0.5 := by
  have first : (Text.lines "A.java\t\nA.java\t0.5\n".toList).findSome?
      (scoreOf? (writtenRecord? []) "A.java".toList) = some [] := by decide
  refine ⟨fun x holds => ?_, rfl⟩
  obtain ⟨score, found, number, -⟩ := firstHolds_iff.1 holds
  cases first.symm.trans found
  simp [Decimal.readFloat?, Decimal.takeSign, Decimal.readMagnitude?, Decimal.spanDigits] at number

end SuiteMetrics.Readability
