import SuiteMetrics.Proofs.ReportWriters

/-!
The two readers of reports agree.

A report can be written in many ways, as markup and as JSON. Whichever is chosen, the sums read from
the text are those of the violations that were written: from markup the reader finds them with other
blanks around their messages, and without the empty elements (`ofText_of_writesMarkup`), from JSON
it finds them as they are (`ofText_of_writesJson`).
-/

namespace SuiteMetrics.Violations

open Text (noBlanks)

/-- Every report can be written in both forms, and the same report is read from each text that
writes it: the one of its violations. -/
theorem Report.ofText_markup_json (files : List FileEntry) :
    (∃ markup, WritesMarkup files markup) ∧ (∃ json, WritesJson files json) ∧
    ∀ markup json, WritesMarkup files markup → WritesJson files json →
      Report.ofText (String.ofList markup) = Report.ofText (String.ofList json) ∧
      Report.ofText (String.ofList json) = .ofViolations (files.flatMap FileEntry.list) := by
  refine ⟨exists_writesMarkup files, exists_writesJson files, fun markup json hm hj => ?_⟩
  have fromJson := ofText_of_writesJson hj
  exact ⟨(ofText_of_writesMarkup hm).trans fromJson.symm, fromJson⟩

/-! ### A report in both forms -/

/-- A violation with a blank in front of its message. -/
def oneMessage : List FileEntry :=
  [⟨"A", [("CyclomaticComplexity", " cyclomatic complexity of 5")]⟩]

/-- The report as markup, with prefixes and a comment. -/
def oneMessageMarkup : List Char :=
  "<r:pmd>\n<r:file name=\"A\">".toList ++
    "<violation rule=\"CyclomaticComplexity\">".toList ++
    " cyclomatic complexity of 5</violation>".toList ++ "<!----></r:file></r:pmd>".toList

/-- The report as JSON. -/
def oneMessageJson : List Char :=
  "\x7b\"files\":[\x7b\"filename\":\"A\",\"violations\":[".toList ++
    "\x7b\"rule\":\"CyclomaticComplexity\",\"description\":".toList ++
    "\" cyclomatic complexity of 5\"\x7d]\x7d]\x7d".toList

theorem writesMarkup_oneMessage : WritesMarkup oneMessage oneMessageMarkup := by
  let pmd := Xml.word "r:pmd" (by decide) (by decide)
  let file := Xml.tagWith (Xml.word "r:file" (by decide) (by decide))
    (Xml.word "name" (by decide) (by decide)) "A".toList
  let violation := violationTag "CyclomaticComplexity"
  let message : Xml.Part := ⟨" cyclomatic complexity of 5".toList, by decide +kernel,
    .closing violation.name noBlanks⟩
  let comment : Xml.Part := ⟨[], by simp, .aside "!---->".toList (by decide +kernel)⟩
  let fileEnd : Xml.Part := ⟨[], by simp, .closing file.name noBlanks⟩
  let pmdEnd : Xml.Part := ⟨[], by simp, .closing pmd noBlanks⟩
  have foreign : Foreign pmd := by
    unfold Foreign Named
    decide
  have spelled : Xml.Spells message.data " cyclomatic complexity of 5".toList := by
    have plain := Xml.spells_spell message.data
    rwa [show message.data.flatMap Xml.spell = message.data by decide +kernel] at plain
  have violations : WritesViolations [("CyclomaticComplexity", " cyclomatic complexity of 5")]
      [⟨[], by simp, .opening violation⟩, message, comment] :=
    .element rfl (named_violationTag _) (Xml.tagWith_has rfl)
      (.last spelled ⟨_, _, rfl, named_violationTag _⟩ : WritesMessage _ [message])
      (.pass trivial .nil)
  refine ⟨{
    marked := false
    first := ⟨[], by simp, .opening ⟨pmd, [], noBlanks⟩⟩
    blank := by simp
    others := ⟨['\n'], by decide, .opening file⟩ ::
      ([⟨[], by simp, .opening violation⟩, message, comment] ++ [fileEnd, pmdEnd])
    last := []
    plain := by simp
    nested := by decide +kernel }, by decide +kernel, ?_⟩
  exact .pass foreign (.element rfl rfl (Xml.tagWith_has rfl) violations ⟨_, _, rfl, rfl⟩
    (.pass foreign .nil))

theorem spelledChars_plain {text : List Char}
    (plain : text.all (fun c => c ≠ '"' ∧ c ≠ '\\' ∧ ¬ c.toNat < 0x20) = true) :
    Json.SpelledChars text text := by
  induction text with
  | nil => exact .nil
  | cons c text ih =>
      rw [List.all_cons, Bool.and_eq_true] at plain
      obtain ⟨quote, escape, control⟩ := of_decide_eq_true plain.1
      exact .plain quote escape control (ih plain.2)

theorem writesJson_oneMessage : WritesJson oneMessage oneMessageJson := by
  have key {s : String}
      (plain : s.toList.all (fun c => c ≠ '"' ∧ c ≠ '\\' ∧ ¬ c.toNat < 0x20) = true) :=
    spelledChars_plain plain
  have violation := Json.Spelled.object noBlanks <|
    .field noBlanks noBlanks noBlanks (key (s := "rule") (by decide +kernel))
      (.string noBlanks (key (s := "CyclomaticComplexity") (by decide +kernel))) <|
    .lastField noBlanks noBlanks noBlanks (key (s := "description") (by decide +kernel))
      (.string noBlanks (key (s := " cyclomatic complexity of 5") (by decide +kernel)))
  have file := Json.Spelled.object noBlanks <|
    .field noBlanks noBlanks noBlanks (key (s := "filename") (by decide +kernel))
      (.string noBlanks (key (s := "A") (by decide +kernel))) <|
    .lastField noBlanks noBlanks noBlanks (key (s := "violations") (by decide +kernel))
      (.array noBlanks (.lastItem noBlanks violation))
  have whole := Json.Spelled.object noBlanks <|
    .lastField noBlanks noBlanks noBlanks (key (s := "files") (by decide +kernel))
      (.array noBlanks (.lastItem noBlanks file))
  simp only [String.ofList_toList] at whole
  exact ⟨jsonDocument oneMessage, _, noBlanks, by decide +kernel, whole,
    listsFiles_document oneMessage⟩

theorem Report.ofText_oneMessage :
    WritesMarkup oneMessage oneMessageMarkup ∧ WritesJson oneMessage oneMessageJson ∧
    Report.ofText (String.ofList oneMessageMarkup) =
      Report.ofText (String.ofList oneMessageJson) ∧
    ((Report.ofText (String.ofList oneMessageJson)).sum? "A" .cyclomatic).map (·.val) =
      some 5 := by
  have read := (Report.ofText_markup_json oneMessage).2.2 _ _ writesMarkup_oneMessage
    writesJson_oneMessage
  refine ⟨writesMarkup_oneMessage, writesJson_oneMessage, read.1, ?_⟩
  rw [read.2]
  decide +kernel

end SuiteMetrics.Violations
