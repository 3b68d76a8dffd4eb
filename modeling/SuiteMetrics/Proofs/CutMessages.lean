import SuiteMetrics.Proofs.ReportWriters

/-!
Messages cut into pieces.

The message of a violation need not stand in one piece of character data: CDATA sections and
comments may come between (`CutText`). The reader takes the pieces together again, but each piece of
character data has lost the blanks at its ends by then, also those beside a cut. The value of what
is kept is all that a report shows of the message (`sameReports_iff`). So cutting a message changes
no report exactly when the value of what is kept is the value of the message, and this holds
whenever no blank stands beside a cut (`cut_changes_no_report_iff`).
-/

namespace SuiteMetrics

namespace Xml

open Text (Blanks isMarkupBlank)

/-! ### Texts in pieces -/

/-- Character data as it is written, with the text that it spells. -/
structure Piece where
  data : List Char
  text : List Char
  plain : '<' ∉ data
  spells : Spells data text

/-- What may stand between two pieces of character data in one element. -/
inductive Cut where
  | aside (written : List Char) (reads : markup? written = some (.silent, []))
  | section_ (inside written : List Char) (reads : markup? written = some (.cdata inside, []))

def Cut.markup : Cut → Markup
  | .aside written reads => .aside written reads
  | .section_ inside written reads => .section_ inside written reads

/-- The part of a text that a cut holds. -/
def Cut.text : Cut → List Char
  | .aside _ _ => []
  | .section_ inside _ _ => inside

/-- A text in pieces: character data, with a cut behind each piece but the last. -/
structure CutText where
  pieces : List (Piece × Cut)
  last : Piece

/-- What the reader of events leaves of a piece. -/
def Piece.kept (p : Piece) : List Char :=
  (unescape? (Text.trimBy isMarkupBlank p.data)).getD []

namespace CutText

/-- The whole text. -/
def text (t : CutText) : List Char :=
  t.pieces.flatMap (fun p => p.1.text ++ p.2.text) ++ t.last.text

/-- What is left of the text when its pieces are put together again. -/
def kept (t : CutText) : List Char :=
  t.pieces.flatMap (fun p => p.1.kept ++ p.2.text) ++ t.last.kept

/-- The parts of a document that write the text up to its last piece. -/
def cutParts (t : CutText) : List Part :=
  t.pieces.map fun p => ⟨p.1.data, p.1.plain, p.2.markup⟩

/-- The parts of a document that write the text and end the element around it. -/
def parts (t : CutText) (name : Name) (blanks : Blanks) : List Part :=
  t.cutParts ++ [⟨t.last.data, t.last.plain, .closing name blanks⟩]

/-- No blank of the character data stands beside a cut. -/
structure CutsBesideNoBlank (t : CutText) : Prop where
  before : ∀ p ∈ t.pieces, ∀ c ∈ p.1.data.getLast?, isMarkupBlank c = false
  behind : ∀ p ∈ (t.pieces.map Prod.fst ++ [t.last]).tail, ∀ c ∈ p.data.head?,
    isMarkupBlank c = false

end CutText

/-! ### What is kept -/

section Blanks

variable {blanks s : List Char} (blank : ∀ c ∈ blanks, isMarkupBlank c = true)
include blank

theorem eq_nil_of_head (plain : ∀ c ∈ (blanks ++ s).head?, isMarkupBlank c = false) :
    blanks = [] := by
  cases blanks with
  | nil => rfl
  | cons c blanks => simp [blank c List.mem_cons_self] at plain

theorem eq_nil_of_getLast (plain : ∀ c ∈ (s ++ blanks).getLast?, isMarkupBlank c = false) :
    blanks = [] := by
  obtain rfl | ⟨front, c, rfl⟩ := blanks.eq_nil_or_concat
  · rfl
  · simp [blank c (by simp)] at plain

end Blanks

/-- A piece loses the blanks at its ends, and nothing else. -/
theorem Piece.split (p : Piece) :
    ∃ front back, p.data = front ++ (Text.trimBy isMarkupBlank p.data ++ back) ∧
      unescape? (Text.trimBy isMarkupBlank p.data) = some p.kept ∧
      p.text = front ++ (p.kept ++ back) ∧ (∀ c ∈ front, isMarkupBlank c = true) ∧
      ∀ c ∈ back, isMarkupBlank c = true := by
  obtain ⟨front, back, found, split, read, text, blanks⟩ := unescape?_trimBy p.spells.unescape?
  have same : p.kept = found := by rw [Piece.kept, read, Option.getD_some]
  exact ⟨front, back, split, same ▸ read, same ▸ text, blanks⟩

namespace CutText

/-- Behind a cut nothing is lost before the last piece's end. -/
theorem text_behind_cut {pieces : List (Piece × Cut)} {last : Piece}
    (before : ∀ p ∈ pieces, ∀ c ∈ p.1.data.getLast?, isMarkupBlank c = false)
    (behind : ∀ p ∈ pieces.map Prod.fst ++ [last], ∀ c ∈ p.data.head?, isMarkupBlank c = false) :
    ∃ back, (CutText.mk pieces last).text = (CutText.mk pieces last).kept ++ back ∧
      ∀ c ∈ back, isMarkupBlank c = true := by
  induction pieces with
  | nil =>
      obtain ⟨front, back, split, -, text, blankFront, blankBack⟩ := last.split
      obtain rfl := eq_nil_of_head blankFront (split ▸ behind last (by simp))
      exact ⟨back, text, blankBack⟩
  | cons p ps ih =>
      obtain ⟨front, back, split, -, text, blankFront, blankBack⟩ := p.1.split
      obtain rfl := eq_nil_of_head blankFront (split ▸ behind p.1 (by simp))
      rw [List.nil_append] at split text
      obtain rfl := eq_nil_of_getLast blankBack (split ▸ before p List.mem_cons_self)
      obtain ⟨rest, same, blank⟩ := ih (fun q hq => before q (List.mem_cons_of_mem _ hq))
        fun q hq => behind q (List.mem_cons_of_mem _ hq)
      refine ⟨rest, ?_, blank⟩
      simp only [CutText.text, CutText.kept, List.flatMap_cons, List.append_assoc] at same ⊢
      rw [text, same]
      simp

/-- If no blank stands beside a cut, only blanks at the ends of the whole text are lost. -/
theorem CutsBesideNoBlank.text_eq {t : CutText} (h : t.CutsBesideNoBlank) :
    ∃ front back, t.text = front ++ (t.kept ++ back) ∧
      (∀ c ∈ front, isMarkupBlank c = true) ∧ ∀ c ∈ back, isMarkupBlank c = true := by
  obtain ⟨pieces, last⟩ := t
  cases pieces with
  | nil =>
      obtain ⟨front, back, -, -, text, blanks⟩ := last.split
      exact ⟨front, back, text, blanks⟩
  | cons p ps =>
      obtain ⟨front, back, split, -, text, blankFront, blankBack⟩ := p.1.split
      rw [← List.append_assoc] at split
      obtain rfl := eq_nil_of_getLast blankBack (split ▸ h.before p List.mem_cons_self)
      obtain ⟨rest, same, blank⟩ := text_behind_cut
        (fun q hq => h.before q (List.mem_cons_of_mem _ hq)) h.behind
      refine ⟨front, rest, ?_, blankFront, blank⟩
      simp only [CutText.text, CutText.kept, List.flatMap_cons, List.append_assoc] at same ⊢
      rw [text, same]
      simp

end CutText

end Xml

namespace Violations

open Text (Blanks noBlanks)
open Xml (Cut CutText Part Piece Tag dataEvents)

namespace Reading

/-! ### Reading a message in pieces -/

/-- A reading behind a violation whose message is complete. It counts if a file is open. -/
def filed (r : Reading) (rule : String) (message : List Char) : Reading :=
  { r with
    violation := none
    done := (r.file.map fun file => ⟨file, rule, Text.trim message⟩).toList ++ r.done }

theorem append_nil (r : Reading) : r.append [] = r := by
  obtain ⟨depth, file, violation, done⟩ := r
  cases violation <;> simp [append]

theorem append_append (r : Reading) (more more' : List Char) :
    (r.append more).append more' = r.append (more ++ more') := by
  obtain ⟨depth, file, violation, done⟩ := r
  cases violation <;> simp [append]

/-- A piece adds what is kept of it. -/
theorem data_piece (p : Piece) (r : Reading) :
    (dataEvents p.data).foldlM step? r = some (r.append p.kept) := by
  obtain ⟨-, -, -, read, -⟩ := p.split
  simp only [dataEvents]
  split
  · rename_i nothing
    rw [List.isEmpty_iff.1 nothing] at read
    have none_ : p.kept = [] := (Option.some.inj read).symm
    rw [none_, append_nil]
    rfl
  · obtain ⟨depth, file, violation, done⟩ := r
    cases violation <;> simp [step?, append, read]

theorem step_cut (c : Cut) (r : Reading) : r.step? c.markup.event = some (r.append c.text) := by
  cases c with
  | aside => rw [Cut.text, append_nil]; rfl
  | section_ => rfl

theorem run_cutParts (t : CutText) (r : Reading) :
    run t.cutParts r = some (r.append (t.pieces.flatMap fun p => p.1.kept ++ p.2.text)) := by
  unfold CutText.cutParts
  induction t.pieces generalizing r with
  | nil => rw [List.flatMap_nil, append_nil]; rfl
  | cons p ps ih =>
      rw [List.map_cons, run_cons, data_piece, Option.bind_some, step_cut, Option.bind_some, ih,
        append_append, append_append, List.flatMap_cons, List.append_assoc]

theorem step_close {tag : Tag} (named : Named tag.name "violation") (blanks : Blanks)
    (rule : String) (message : List Char) (r : Reading) :
    step? { r with depth := r.depth + 1, violation := some (rule, message) }
        (Xml.Markup.closing tag.name blanks).event = some (r.filed rule message) := by
  simp only [step?, Xml.Markup.event, show Xml.localName tag.name.chars = _ from named,
    String.ofList_toList, Nat.add_sub_cancel, finish, filed]
  cases r.file <;> rfl

/-- The message of a violation in pieces is read as what is kept of it. -/
theorem run_cut {tag : Tag} (named : Named tag.name "violation") (t : CutText) (blanks : Blanks)
    (rule : String) (r : Reading) :
    run (t.parts tag.name blanks) { r with depth := r.depth + 1, violation := some (rule, []) } =
      some (r.filed rule t.kept) := by
  rw [CutText.parts, run_append, run_cutParts, Option.bind_some, run_cons, data_piece,
    Option.bind_some, append_append]
  simp only [append, Option.map_some, List.nil_append]
  rw [step_close named, Option.bind_some]
  rfl

/-! ### What was read before -/

/-- A reading with more violations before those it has. -/
def after (r : Reading) (earlier : List Violation) : Reading :=
  { r with done := r.done ++ earlier }

theorem finish_after (r : Reading) (earlier : List Violation) :
    (r.after earlier).finish = r.finish.after earlier := by
  obtain ⟨depth, file, violation, done⟩ := r
  cases file with
  | none => rfl
  | some file => cases violation <;> rfl

/-- A step does not depend on the violations read before. -/
theorem step_after (r : Reading) (earlier : List Violation) (e : Xml.Event) :
    (r.after earlier).step? e = (r.step? e).map (·.after earlier) := by
  cases e with
  | opening name attributes =>
      simp only [step?]
      split
      · cases attribute? "name" attributes <;> rfl
      · cases attribute? "rule" attributes <;> rfl
      · rfl
  | closing name =>
      simp only [step?]
      split
      · exact congrArg some (finish_after { r with depth := r.depth - 1 } earlier)
      · rfl
      · rfl
  | text raw =>
      obtain ⟨depth, file, violation, done⟩ := r
      cases violation with
      | none => rfl
      | some v =>
          simp only [step?, after, Option.map_map]
          rfl
  | cdata raw | empty | silent => rfl

theorem events_after (r : Reading) (earlier : List Violation) (es : List Xml.Event) :
    es.foldlM step? (r.after earlier) = (es.foldlM step? r).map (·.after earlier) := by
  induction es generalizing r with
  | nil => rfl
  | cons e es ih =>
      rw [List.foldlM_cons, List.foldlM_cons, step_after]
      cases r.step? e with
      | none => rfl
      | some r' => exact ih r'

/-- The violations of a reading at the end of a document. -/
def result? (r : Reading) : Option (List Violation) :=
  if r.depth = 0 then some r.done.reverse else none

theorem result?_after (r : Reading) (earlier : List Violation) :
    (r.after earlier).result? = r.result?.map (earlier.reverse ++ ·) := by
  unfold result? after
  split <;> simp

theorem violations?_document (d : Xml.Document) :
    violations? (Xml.events d.text) =
      (run d.parts start).bind fun r => ((dataEvents d.last).foldlM step? r).bind result? := by
  rw [violations?, d.events_text, List.foldlM_append]
  simp only [Option.bind_eq_bind, Option.bind_assoc, Bool.true_and, decide_eq_true_eq]
  rfl

end Reading

/-! ### Places of messages -/

open Reading (attribute? result? run start step? violations?)

/-- A place for the message of a violation: what a document has around the message. -/
structure Place where
  front : List Part
  /-- The part with the start tag of the violation. -/
  opening : Part
  tag : Tag
  opens : opening.markup = .opening tag
  named : Named tag.name "violation"
  /-- The blanks in the end tag. -/
  blanks : Blanks
  back : List Part
  last : List Char

/-- The rule of the violation, whose name is empty if there is none. -/
def Place.rule (p : Place) : String :=
  match attribute? "rule" p.tag.rest with
  | some (some rule) => rule
  | _ => ""

/-- A document has a message at a place, cut in some way. -/
structure Place.Holds (p : Place) (t : CutText) (d : Xml.Document) : Prop where
  parts : d.parts = p.front ++ p.opening :: (t.parts p.tag.name p.blanks ++ p.back)
  last : d.last = p.last

namespace Place

variable (p : Place)

/-- The reading at the end of a document, from behind the violation on. -/
def rest (r : Reading) : Option Reading :=
  (p.back.flatMap Part.events ++ dataEvents p.last).foldlM step? r

theorem violations?_of_holds {t : CutText} {d : Xml.Document} (h : p.Holds t d) :
    violations? (Xml.events d.text) =
      (run p.front start).bind fun r =>
        ((dataEvents p.opening.data).foldlM step? r).bind fun r =>
          (attribute? "rule" p.tag.rest).bind fun rule =>
            (p.rest (r.filed (rule.getD "") t.kept)).bind result? := by
  have opening (r : Reading) : (r.step? p.opening.markup.event).bind
      (run (t.parts p.tag.name p.blanks ++ p.back)) =
      (attribute? "rule" p.tag.rest).bind fun rule =>
        run p.back (r.filed (rule.getD "") t.kept) := by
    rw [p.opens]
    simp only [step?, Xml.Markup.event, show Xml.localName p.tag.name.chars = _ from p.named,
      String.ofList_toList]
    cases attribute? "rule" p.tag.rest with
    | none => rfl
    | some rule =>
        simp only [Option.bind_eq_bind, Option.bind_some, Option.pure_def, Reading.run_append,
          Reading.run_cut p.named]
  rw [Reading.violations?_document, h.parts, h.last, Reading.run_append]
  simp only [Reading.run_cons, opening, Option.bind_assoc]
  simp only [rest, run, List.foldlM_append]
  simp only [Option.bind_eq_bind, Option.bind_assoc]

/-- What is read from behind a violation on: either the same whatever the message is, or the
message makes one violation among others. -/
theorem rest_filed (r : Reading) :
    (∃ read, ∀ message, (p.rest (r.filed p.rule message)).bind result? = read) ∨
    ∃ file earlier later, ∀ message, (p.rest (r.filed p.rule message)).bind result? =
      some (earlier ++ ⟨file, p.rule, Text.trim message⟩ :: later) := by
  obtain ⟨depth, file, violation, done⟩ := r
  cases file with
  | none => exact .inl ⟨(p.rest ⟨depth, none, none, done⟩).bind result?, fun _ => rfl⟩
  | some file =>
      have filed (message : List Char) :
          (Reading.mk depth (some file) violation done).filed p.rule message =
            (Reading.mk depth (some file) none []).after
              (⟨file, p.rule, Text.trim message⟩ :: done) := rfl
      have reads (message : List Char) :
          (p.rest ((Reading.mk depth (some file) violation done).filed p.rule message)).bind
              result? =
            ((p.rest ⟨depth, some file, none, []⟩).bind result?).map
              ((⟨file, p.rule, Text.trim message⟩ :: done).reverse ++ ·) := by
        rw [filed, rest, Reading.events_after, Option.bind_map, rest, Option.map_bind]
        exact congrArg _ (funext fun r => Reading.result?_after r _)
      cases behind : (p.rest ⟨depth, some file, none, []⟩).bind result? with
      | none => exact .inl ⟨none, fun message => by rw [reads, behind, Option.map_none]⟩
      | some later =>
          refine .inr ⟨file, done.reverse, later, fun message => ?_⟩
          rw [reads, behind, Option.map_some, List.reverse_cons, List.append_assoc,
            List.singleton_append]

/-- At a place either the message is not read, or it makes one violation among others. -/
theorem reads_nothing_or_one :
    (∃ read, ∀ t d, p.Holds t d → violations? (Xml.events d.text) = read) ∨
    ∃ file earlier later, ∀ t d, p.Holds t d → violations? (Xml.events d.text) =
      some (earlier ++ ⟨file, p.rule, Text.trim t.kept⟩ :: later) := by
  cases before : (run p.front start).bind fun r =>
      (dataEvents p.opening.data).foldlM step? r with
  | none =>
      refine .inl ⟨none, fun t d h => ?_⟩
      rw [p.violations?_of_holds h, ← Option.bind_assoc, before, Option.bind_none]
  | some r =>
      cases given : attribute? "rule" p.tag.rest with
      | none =>
          refine .inl ⟨none, fun t d h => ?_⟩
          rw [p.violations?_of_holds h, ← Option.bind_assoc, before, Option.bind_some, given,
            Option.bind_none]
      | some rule =>
          have named : rule.getD "" = p.rule := by
            rw [Place.rule, given]
            cases rule <;> rfl
          have reads {t d} (h : p.Holds t d) : violations? (Xml.events d.text) =
              (p.rest (r.filed p.rule t.kept)).bind result? := by
            rw [p.violations?_of_holds h, ← Option.bind_assoc, before, Option.bind_some, given,
              Option.bind_some, named]
          obtain ⟨read, same⟩ | ⟨file, earlier, later, one⟩ := p.rest_filed r
          · exact .inl ⟨read, fun t d h => (reads h).trans (same t.kept)⟩
          · exact .inr ⟨file, earlier, later, fun t d h => (reads h).trans (one t.kept)⟩

end Place

/-! ### Reports -/

theorem ofText_document (d : Xml.Document) :
    Report.ofText (String.ofList d.text) =
      ((violations? (Xml.events d.text)).map Report.ofViolations).getD .empty := by
  rw [Report.ofText, String.toList_ofList, violationsOfText?_document]
  cases violations? (Xml.events d.text) <;> rfl

theorem valueIn?_trim (rule : String) (message : List Char) :
    valueIn? rule (Text.trim message) = valueIn? rule message := by
  simp only [valueIn?, (sameButBlanks_trim message).extract?]

/-- Of a message only its value counts. -/
theorem Report.add_congr {file rule : String} {message message' : List Char}
    (same : valueIn? rule message = valueIn? rule message') (r : Report) :
    r.add ⟨file, rule, message⟩ = r.add ⟨file, rule, message'⟩ := by
  unfold Report.add
  dsimp only
  unfold valueIn? at same
  cases named : Rule.ofName? rule with
  | none => rfl
  | some rule =>
      rw [named, Option.bind_some, Option.bind_some] at same
      simp only [same]

/-- The sum of a single violation is its value. -/
theorem Report.sumOf?_single (v : Violation) :
    (Report.ofViolations [v]).sumOf? v.file v.rule = valueIn? v.rule v.message := by
  rw [ofViolations, List.foldl_cons, List.foldl_nil, add, sumOf?, valueIn?]
  cases named : Rule.ofName? v.rule with
  | none => rfl
  | some rule =>
      cases value : extract? rule v.message with
      | none => simp [value, sum?, empty, Assoc.get?]
      | some value_ =>
          simp [value, sum?, empty, Assoc.get?, Assoc.update]

/-! ### A report of one violation -/

theorem plain_nil : '<' ∉ ([] : List Char) := List.not_mem_nil

theorem blank_nil : ∀ c ∈ ([] : List Char), Text.isMarkupBlank c = true :=
  fun _ h => absurd h List.not_mem_nil

/-- The place of the message in a report of one violation. -/
def onlyPlace (rule : String) : Place where
  front := [⟨[], plain_nil, .opening pmdTag⟩, ⟨[], plain_nil, .opening (fileTag "A")⟩]
  opening := ⟨[], plain_nil, .opening (violationTag rule)⟩
  tag := violationTag rule
  opens := rfl
  named := named_violationTag rule
  blanks := noBlanks
  back := [⟨[], plain_nil, .closing (fileTag "A").name noBlanks⟩,
    ⟨[], plain_nil, .closing pmdTag.name noBlanks⟩]
  last := []

/-- A report of one violation with its message in pieces. -/
def onlyViolation (rule : String) (t : CutText) : Xml.Document where
  marked := false
  first := ⟨[], plain_nil, .opening pmdTag⟩
  blank := blank_nil
  others := Xml.element (fileTag "A")
    (Xml.element (violationTag rule) t.cutParts t.last.data t.last.plain) [] plain_nil ++
      [⟨[], plain_nil, .closing pmdTag.name noBlanks⟩]
  last := []
  plain := plain_nil
  nested := by
    have pieces : Xml.Balanced t.cutParts := by
      intro names
      unfold CutText.cutParts
      induction t.pieces with
      | nil => rfl
      | cons p ps ih =>
          obtain ⟨piece, cut⟩ := p
          cases cut <;> exact ih
    have violation := Xml.balanced_element (t := violationTag rule) pieces t.last.plain
    have file := Xml.balanced_element (t := fileTag "A") violation plain_nil
    exact Xml.balanced_element (t := pmdTag) file plain_nil []

theorem attribute?_violationTag (rule : String) :
    attribute? "rule" (violationTag rule).rest = some (some rule) :=
  Reading.attribute?_rest (Xml.tagWith_has rfl)

theorem rule_onlyPlace (rule : String) : (onlyPlace rule).rule = rule := by
  rw [Place.rule, onlyPlace, attribute?_violationTag]

theorem holds_onlyViolation (rule : String) (t : CutText) :
    (onlyPlace rule).Holds t (onlyViolation rule t) where
  parts := by simp [Xml.Document.parts, onlyViolation, onlyPlace, Xml.element, CutText.parts]
  last := rfl

theorem violations?_onlyViolation (rule : String) (t : CutText) :
    violations? (Xml.events (onlyViolation rule t).text) =
      some [⟨"A", rule, Text.trim t.kept⟩] := by
  have pmd : start.step? (Xml.Markup.opening pmdTag).event = some ⟨1, none, none, []⟩ := rfl
  have file : Reading.step? ⟨1, none, none, []⟩ (Xml.Markup.opening (fileTag "A")).event =
      some ⟨2, some "A", none, []⟩ := Reading.step_file (named_fileTag "A") (Xml.tagWith_has rfl)
  have nothing (r : Reading) : (dataEvents []).foldlM step? r = some r := rfl
  rw [(onlyPlace rule).violations?_of_holds (holds_onlyViolation rule t)]
  simp only [onlyPlace, Reading.run_cons, nothing, pmd, file, attribute?_violationTag,
    Option.bind_some]
  rfl

/-! ### Which cuts change a report -/

/-- Two texts give the same reports as the message of a violation of a rule: any two documents read
alike that have them at the same place. -/
def SameReports (rule : String) (t t' : CutText) : Prop :=
  ∀ (p : Place) (d d' : Xml.Document), p.rule = rule → p.Holds t d → p.Holds t' d' →
    Report.ofText (String.ofList d.text) = Report.ofText (String.ofList d'.text)

/-- The value of what is kept of a message is all that a report shows of it. -/
theorem sameReports_iff {rule : String} {t t' : CutText} :
    SameReports rule t t' ↔ valueIn? rule t.kept = valueIn? rule t'.kept := by
  constructor
  · intro same
    have reports := same _ _ _ (rule_onlyPlace rule) (holds_onlyViolation rule t)
      (holds_onlyViolation rule t')
    simp only [ofText_document, violations?_onlyViolation, Option.map_some, Option.getD_some]
      at reports
    have sums := congrArg (·.sumOf? "A" rule) reports
    rw [Report.sumOf?_single ⟨"A", rule, _⟩, Report.sumOf?_single ⟨"A", rule, _⟩] at sums
    rwa [valueIn?_trim, valueIn?_trim] at sums
  · rintro value p d d' rfl holds holds'
    rw [ofText_document, ofText_document]
    obtain ⟨read, same⟩ | ⟨file, earlier, later, one⟩ := p.reads_nothing_or_one
    · rw [same t d holds, same t' d' holds']
    · have added (r : Report) : r.add ⟨file, p.rule, Text.trim t.kept⟩ =
          r.add ⟨file, p.rule, Text.trim t'.kept⟩ :=
        Report.add_congr (by rw [valueIn?_trim, valueIn?_trim, value]) r
      rw [one t d holds, one t' d' holds']
      simp only [Option.map_some, Option.getD_some, Report.ofViolations, List.foldl_append,
        List.foldl_cons, added]

/-- Blanks at the ends of a message have no part in its value. -/
theorem valueIn?_kept {t : CutText} (h : t.CutsBesideNoBlank) (rule : String) :
    valueIn? rule t.kept = valueIn? rule t.text := by
  obtain ⟨front, back, text, blankFront, blankBack⟩ := h.text_eq
  have same : SameButBlanks t.kept t.text := ⟨front, back, text,
    fun c hc => Text.isBlank_of_isMarkupBlank (blankFront c hc),
    fun c hc => Text.isBlank_of_isMarkupBlank (blankBack c hc)⟩
  simp only [valueIn?, same.extract?]

theorem cutsBesideNoBlank_of_pieces {t : CutText} (one : t.pieces = []) :
    t.CutsBesideNoBlank := by
  obtain ⟨pieces, last⟩ := t
  obtain rfl : pieces = [] := one
  exact ⟨by simp, by simp⟩

/-- A message that is cut into pieces gives the same reports as where no blank stands beside a cut,
for instance as in one piece, exactly when the value of what is kept of the pieces is the value of
the message. So it does if no blank stands beside a cut in either. -/
theorem cut_changes_no_report_iff (rule : String) {cut whole : CutText}
    (noBlank : whole.CutsBesideNoBlank) (same : cut.text = whole.text) :
    (SameReports rule cut whole ↔ valueIn? rule cut.kept = valueIn? rule cut.text) ∧
      (cut.CutsBesideNoBlank → SameReports rule cut whole) := by
  have value : valueIn? rule whole.kept = valueIn? rule cut.text := by
    rw [valueIn?_kept noBlank, same]
  refine ⟨?_, fun noBlank' => ?_⟩
  · rw [sameReports_iff, value]
  · rw [sameReports_iff, value, valueIn?_kept noBlank']

/-! ### A message of one number -/

/-- A text as one piece. -/
def wholePiece (text : List Char) : Piece :=
  ⟨text.flatMap Xml.spell, text, Xml.not_mem_spell (.inl rfl) text, Xml.spells_spell text⟩

def inOnePiece : CutText := ⟨[], wholePiece "cognitive complexity of 17".toList⟩

/-- The number is cut, and no blank stands beside the cut. -/
def cutInNumber : CutText where
  pieces := [(wholePiece "cognitive complexity of 1".toList,
    .section_ ['7'] "![CDATA[7]]>".toList (by decide +kernel))]
  last := wholePiece []

/-- The number is in a section of its own, behind a blank. -/
def cutBeforeNumber : CutText where
  pieces := [(wholePiece "cognitive complexity of ".toList,
    .section_ ['1', '7'] "![CDATA[17]]>".toList (by decide +kernel))]
  last := wholePiece []

/-- A cut inside the number changes no report. -/
theorem cut_changes_no_report_inNumber :
    inOnePiece.CutsBesideNoBlank ∧ cutInNumber.text = inOnePiece.text ∧
      cutInNumber.CutsBesideNoBlank ∧
      SameReports "CognitiveComplexity" cutInNumber inOnePiece := by
  have whole : inOnePiece.CutsBesideNoBlank := cutsBesideNoBlank_of_pieces rfl
  have same : cutInNumber.text = inOnePiece.text := by decide +kernel
  have noBlank : cutInNumber.CutsBesideNoBlank := by
    constructor
    · intro p hp c hc
      obtain rfl := List.mem_singleton.1 hp
      have last : (wholePiece "cognitive complexity of 1".toList).data.getLast? = some '1' := rfl
      cases last.symm.trans hc
      rfl
    · intro p hp c hc
      obtain rfl : p = wholePiece [] := List.mem_singleton.1 hp
      cases hc
  exact ⟨whole, same, noBlank,
    (cut_changes_no_report_iff "CognitiveComplexity" whole same).2 noBlank⟩

/-- A cut before the number does: the blank in front of it is lost, and so is the value. -/
theorem value_lost_beforeNumber :
    cutBeforeNumber.text = inOnePiece.text ∧
      (onlyViolation "CognitiveComplexity" cutBeforeNumber).text =
        "<pmd><file name=\"A\"><violation rule=\"CognitiveComplexity\">".toList ++
          "cognitive complexity of <![CDATA[17]]></violation></file></pmd>".toList ∧
      (Report.ofText (String.ofList
        (onlyViolation "CognitiveComplexity" cutBeforeNumber).text)).isEmpty = true ∧
      ((Report.ofText (String.ofList (onlyViolation "CognitiveComplexity" inOnePiece).text)).sum?
        "A" .cognitive).map (·.val) = some 17 ∧
      ¬ SameReports "CognitiveComplexity" cutBeforeNumber inOnePiece := by
  refine ⟨by decide +kernel, by decide +kernel, by decide +kernel, by decide +kernel, ?_⟩
  rw [sameReports_iff]
  decide +kernel

end Violations

end SuiteMetrics
