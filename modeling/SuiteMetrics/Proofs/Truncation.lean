import Mathlib.Data.List.Basic
import SuiteMetrics.Proofs.OpenElements
import SuiteMetrics.Proofs.SettledJson

/-!
Reports cut short.

A report is read as a whole or not at all: a text that stops before the last character of its
root element, or of its outermost object, gives the empty report, whatever violations it holds in
full. For JSON that is because an object that is complete stays the same when more text follows.
For markup it rests on a count: the reader of events never lets an end tag stand alone, so the
start tags less the end tags (`excess`) are the depth that the reader of reports keeps, and a
proper part of a root element has a positive excess.
-/

namespace SuiteMetrics.Xml

open Text (isMarkupBlank)

/-! ### Root elements -/

/-- What stands in an element: all elements opened in it are closed in it. -/
def Content (es : List Event) : Prop := ClosesOnlyOpen 0 es ∧ excess es = 0

instance (es : List Event) : Decidable (Content es) :=
  inferInstanceAs (Decidable (ClosesOnlyOpen 0 es ∧ excess es = 0))

/-- The text of a document up to the last character of its root element. -/
structure RootElement (text : List Char) : Prop where
  complete : (events text).complete = true
  last : text.getLast? = some '>'
  shape : ∃ prolog root attributes inner, (∀ e ∈ prolog, e = .silent) ∧ Content inner ∧
    (events text).events = prolog ++ .opening root attributes :: (inner ++ [.closing root])

theorem excess_of_silent {es : List Event} (silent : ∀ e ∈ es, e = .silent) : excess es = 0 := by
  induction es with
  | nil => rfl
  | cons e es ih =>
      obtain rfl := silent e List.mem_cons_self
      simpa [Event.weight] using ih fun e he => silent e (List.mem_cons_of_mem _ he)

/-- A part of a root element that stops before its end tag leaves elements open. -/
theorem Content.excess_nonneg {inner front later : List Event} {root : List Char} {next : Event}
    (content : Content inner) (same : inner ++ [.closing root] = front ++ next :: later) :
    0 ≤ excess front := by
  have whole := content.1
  obtain ⟨more, rfl, -⟩ | ⟨rest, rfl, last⟩ := List.append_eq_append_iff.1 same.symm
  · simpa using (closesOnlyOpen_append.1 whole).1.nonneg (Int.le_refl 0)
  · obtain rfl : rest = [] := by
      cases rest with
      | nil => rfl
      | cons e rest => simp at last
    simpa using whole.nonneg (Int.le_refl 0)

/-- A part of a document that stops before the root element does holds silent events alone, or
leaves elements open. -/
theorem silent_or_excess_pos {prolog inner read later : List Event} {next : Event}
    {root attributes : List Char} (content : Content inner)
    (silent : ∀ e ∈ prolog, e = .silent)
    (same : prolog ++ .opening root attributes :: (inner ++ [.closing root]) =
      read ++ next :: later) :
    (∀ e ∈ read, e = .silent) ∨ 0 < excess read := by
  obtain ⟨front, rfl, rest⟩ | ⟨later, rfl, -⟩ := List.append_eq_append_iff.1 same
  · cases front with
    | nil => exact .inl (by simpa using silent)
    | cons e front =>
        obtain ⟨rfl, inside⟩ := List.cons.inj rest
        have := content.excess_nonneg inside
        refine .inr ?_
        rw [excess_append, excess_cons, excess_of_silent silent, Event.weight]
        omega
  · exact .inl fun e he => silent e (List.mem_append_left _ he)

theorem RootElement.first {text : List Char} (h : RootElement text) :
    ∃ e later, (events text).events = e :: later ∧ ∀ raw, e ≠ .text raw := by
  obtain ⟨prolog, root, attributes, inner, silent, -, same⟩ := h.shape
  rw [same]
  cases prolog with
  | nil => exact ⟨_, _, rfl, fun raw h => nomatch h⟩
  | cons e prolog =>
      obtain rfl := silent e List.mem_cons_self
      exact ⟨_, _, rfl, fun raw h => nomatch h⟩

theorem events_of_blank {s : List Char} (blank : ∀ c ∈ s, isMarkupBlank c = true) :
    events s = ⟨[], true⟩ := by
  have noMark : afterMark s = s := by
    cases s with
    | nil => rfl
    | cons c r =>
        have : c ≠ '\ufeff' := by
          rintro rfl
          simpa [isMarkupBlank] using blank _ List.mem_cons_self
        simp [afterMark, this]
  have plain : '<' ∉ s := fun h => by simpa [isMarkupBlank] using blank _ h
  rw [events_eq, noMark, eventsFrom_data plain, dataEvents_eq_nil_iff.2 blank]

/-- A document with a root element begins with a bracket, blanks and a byte order mark apart. -/
theorem RootElement.blank_before {text : List Char} (h : RootElement text) :
    ∃ blanks r, afterMark text = blanks ++ '<' :: r ∧ ∀ c ∈ blanks, isMarkupBlank c = true := by
  obtain ⟨e, later, first, noText⟩ := h.first
  have complete := h.complete
  rw [events_eq] at first complete
  have blank (data : List Char) (es : List Event) (same : dataEvents data ++ es = e :: later) :
      dataEvents data = [] := by
    by_contra some_
    simp only [dataEvents] at same some_
    split at some_
    · exact some_ rfl
    · rename_i piece
      rw [if_neg piece] at same
      exact noText _ (List.cons.inj same).1.symm
  obtain plain | ⟨data, r, plain, split⟩ := data_or_markup (afterMark text)
  · rw [eventsFrom_data plain] at first
    have nothing := blank (afterMark text) [] (by simpa using first)
    rw [nothing] at first
    simp at first
  · rw [split] at first complete
    obtain ⟨event, r', inner, read, fits, -⟩ := markup_of_complete plain complete
    rw [eventsFrom_markup plain read fits] at first
    exact ⟨data, r, split, dataEvents_eq_nil_iff.1 (blank data _ first)⟩

/-- A document with a root element is no object. -/
theorem RootElement.no_brace {text : List Char} (h : RootElement text) :
    (Text.trimStart text).head? ≠ some '\x7b' := by
  obtain ⟨blanks, r, same, blank⟩ := h.blank_before
  by_cases mark : text.head? = some '\ufeff'
  · obtain ⟨rest, rfl⟩ := List.head?_eq_some_iff.1 mark
    simp [Text.trimStart, Text.isBlank]
  · have plain : afterMark text = text := by
      cases text with
      | nil => rfl
      | cons c rest => simp_all [afterMark]
    rw [← plain, same, Text.trimStart_append blank rfl]
    simp

end SuiteMetrics.Xml

namespace SuiteMetrics.Violations

open Json (Document)
open Xml (excess ClosesOnlyOpen RootElement)

namespace Reading

/-- Nothing is read from events that stop at a fault or leave an element open. -/
theorem violations?_eq_none {e : Xml.Events} (closes : ClosesOnlyOpen 0 e.events)
    (bad : e.complete = false ∨ excess e.events ≠ 0) : violations? e = none := by
  unfold violations?
  cases run : e.events.foldlM step? start with
  | none => rfl
  | some r =>
      have depth := depth_of_run run closes
      obtain stops | open_ := bad
      · simp [stops]
      · have : r.depth ≠ 0 := by
          simp only [start] at depth
          omega
        simp [this]

theorem step?_start {e : Xml.Event} (flat : e.weight = 0) : start.step? e = some start := by
  cases e with
  | opening | closing => simp [Xml.Event.weight] at flat
  | empty | text | cdata | silent => rfl

/-- Nothing is read outside elements. -/
theorem violations?_of_flat {e : Xml.Events} (flat : ∀ event ∈ e.events, event.weight = 0) :
    violations? e = none ∨ violations? e = some [] := by
  have run : e.events.foldlM step? start = some start := by
    generalize e.events = es at flat
    induction es with
    | nil => rfl
    | cons event es ih =>
        rw [List.foldlM_cons, step?_start (flat event List.mem_cons_self)]
        exact ih fun event he => flat event (List.mem_cons_of_mem _ he)
  unfold violations?
  rw [run]
  cases e.complete with
  | false => exact .inl rfl
  | true => exact .inr rfl

end Reading

/-! ### Texts -/

theorem object_begins {fuel : Nat} {s r : List Char} {fields : List (Option String × Document)}
    (h : Json.readValue fuel s = some (.object fields, r)) :
    ∃ r', Json.skipBlanks s = '\x7b' :: r' := by
  cases fuel with
  | zero => simp [Json.readValue_zero] at h
  | succ fuel =>
      cases front : Json.skipBlanks s with
      | nil => simp [Json.readValue_blank front] at h
      | cons c r' =>
          obtain rfl | rfl | rfl | rfl | rfl | rfl | number := Json.value_begins c
          · simp [Json.readValue_string front] at h
          · simp [Json.readValue_array front] at h
          · exact ⟨r', rfl⟩
          · simp [Json.readValue_null front, Json.readWord] at h
          · simp [Json.readValue_true front, Json.readWord] at h
          · simp [Json.readValue_false front, Json.readWord] at h
          · simp [Json.readValue_number front number] at h

theorem not_number_of_brace {fuel : Nat} {s r r' : List Char} {d : Document}
    (front : Json.skipBlanks s = '\x7b' :: r') (h : Json.readValue fuel s = some (d, r)) :
    ∀ n, d ≠ .number n := by
  rintro n rfl
  cases fuel with
  | zero => simp [Json.readValue_zero] at h
  | succ fuel => simp [Json.readValue_object front] at h

/-- The text of a document up to the closing brace of its outermost object. -/
structure OutermostObject (text : List Char) : Prop where
  last : text.getLast? = some '\x7d'
  shape : ∃ fields, Document.ofText? text = some (.object fields)

theorem ofText?_inv {s : List Char} {d : Document} (h : Document.ofText? s = some d) :
    ∃ r, Json.readValue (2 * s.length + 2) s = some (d, r) ∧ Json.skipBlanks r = [] := by
  unfold Document.ofText? at h
  split at h
  · rename_i d r read
    split at h
    · rename_i blank
      obtain rfl := Option.some.inj h
      exact ⟨r, read, List.isEmpty_iff.1 blank⟩
    · simp at h
  · simp at h

section Cut

variable {front back : List Char} (some_ : back ≠ [])
include some_

theorem violations?_of_cutElement (whole : RootElement (front ++ back)) :
    Reading.violations? (Xml.events front) = none ∨
      Reading.violations? (Xml.events front) = some [] := by
  have last : back.getLast? = some '>' := by
    have := whole.last
    rwa [List.getLast?_append_of_ne_nil _ some_] at this
  have closes := Xml.closesOnlyOpen_events front
  cases complete : (Xml.events front).complete with
  | false => exact .inl (Reading.violations?_eq_none closes (.inl complete))
  | true =>
      obtain ⟨read, data, next, later, short, long⟩ :=
        Xml.events_cutShort whole.complete last complete
      obtain ⟨prolog, root, attributes, inner, silent, content, same⟩ := whole.shape
      obtain silent | open_ := Xml.silent_or_excess_pos content silent (same.symm.trans long)
      · refine Reading.violations?_of_flat fun e he => ?_
        rw [short] at he
        obtain he | he := List.mem_append.1 he
        · rw [silent e he]
          rfl
        · exact Xml.weight_of_mem_dataEvents he
      · refine .inl (Reading.violations?_eq_none closes (.inr ?_))
        rw [short, Xml.excess_append, Xml.excess_dataEvents]
        omega

theorem ofText?_of_cutObject (whole : OutermostObject (front ++ back)) {r : List Char}
    (brace : Json.skipBlanks front = '\x7b' :: r) : Document.ofText? front = none := by
  cases cut : Document.ofText? front with
  | none => rfl
  | some d =>
      obtain ⟨fields, complete⟩ := whole.shape
      obtain ⟨rest, read, blank⟩ := ofText?_inv complete
      obtain ⟨rest', read', -⟩ := ofText?_inv cut
      have fuel : 2 * front.length + 2 ≤ 2 * (front ++ back).length + 2 := by
        rw [List.length_append]
        omega
      have again := (Json.extends_all _).value read' fuel back
        fun n same => absurd same (not_number_of_brace brace read' n)
      rw [read] at again
      obtain ⟨-, rfl⟩ := Prod.mk.inj (Option.some.inj again)
      -- what is left of the whole text is blank, but it ends with the brace
      have last : '\x7d' ∈ rest' ++ back := by
        have last := whole.last
        rw [List.getLast?_append_of_ne_nil _ some_] at last
        exact List.mem_append_right _ (List.mem_of_getLast? last)
      have := List.dropWhile_eq_nil_iff.1 blank _ last
      simp [Text.isMarkupBlank] at this

theorem violationsOfText?_of_cutElement (whole : RootElement (front ++ back)) :
    violationsOfText? front = none ∨ violationsOfText? front = some [] := by
  have begins := whole.no_brace
  unfold violationsOfText?
  split
  · rename_i r brace
    rw [Text.trimStart, List.dropWhile_append] at begins
    unfold Text.trimStart at brace
    simp [brace] at begins
  · exact violations?_of_cutElement some_ whole

theorem violationsOfText?_of_cutObject (whole : OutermostObject (front ++ back)) :
    violationsOfText? front = none ∨ violationsOfText? front = some [] := by
  obtain ⟨fields, complete⟩ := whole.shape
  obtain ⟨rest, read, -⟩ := ofText?_inv complete
  obtain ⟨r', begins⟩ := object_begins read
  cases next : Json.skipBlanks front with
  | nil =>
      have blank : ∀ c ∈ front, Text.isMarkupBlank c = true := List.dropWhile_eq_nil_iff.1 next
      have nothing : Text.trimStart front = [] :=
        List.dropWhile_eq_nil_iff.2 fun c hc => Text.isBlank_of_isMarkupBlank (blank c hc)
      rw [violationsOfText?, nothing, Xml.events_of_blank blank]
      exact .inr rfl
  | cons c r =>
      rw [Json.skipBlanks_append next back] at begins
      obtain ⟨rfl, -⟩ := List.cons.inj begins
      have object : Text.trimStart front = '\x7b' :: r := by
        rw [← List.takeWhile_append_dropWhile (p := Text.isMarkupBlank) (l := front)]
        rw [show front.dropWhile Text.isMarkupBlank = '\x7b' :: r from next]
        exact Text.trimStart_append (fun d hd => List.mem_takeWhile_imp hd) rfl
      rw [violationsOfText?, object, ofText?_of_cutObject some_ whole next]
      exact .inl rfl

end Cut

/-- The text of a report up to the last character of its root element or outermost object. -/
def WholeReport (text : List Char) : Prop := RootElement text ∨ OutermostObject text

theorem Report.ofText_eq_empty {s : List Char}
    (h : violationsOfText? s = none ∨ violationsOfText? s = some []) :
    Report.ofText (String.ofList s) = .empty := by
  unfold Report.ofText
  rw [String.toList_ofList]
  obtain h | h := h
  · rw [h]
  · rw [h]
    rfl

/-- A report that is cut short is the empty report. The reader of reports gives nothing for events
that stop at a fault or leave an element open, whatever they are, provided that an end tag stands
only where an element is open; the events of every text are of this kind. -/
theorem Report.ofText_cutShort :
    (∀ (text after : List Char) (cut : Nat), WholeReport text → cut < text.length →
      Report.ofText (String.ofList ((text ++ after).take cut)) = .empty) ∧
    (∀ e : Xml.Events, ClosesOnlyOpen 0 e.events →
      (e.complete = false ∨ excess e.events ≠ 0) → Reading.violations? e = none) ∧
    (∀ s : List Char, ClosesOnlyOpen 0 (Xml.events s).events) ∧
    (∀ s : List Char, (Text.trimStart s).head? ≠ some '\x7b' →
      ((Xml.events s).complete = false ∨ excess (Xml.events s).events ≠ 0) →
      Report.ofText (String.ofList s) = .empty) := by
  refine ⟨fun text after cut whole short => ?_,
    fun e closes bad => Reading.violations?_eq_none closes bad, Xml.closesOnlyOpen_events,
    fun s noBrace bad => ?_⟩
  · have front : (text ++ after).take cut = text.take cut :=
      List.take_append_of_le_length (Nat.le_of_lt short)
    have some_ : text.drop cut ≠ [] := by
      simpa using short
    have parts := List.take_append_drop cut text
    rw [front]
    refine Report.ofText_eq_empty ?_
    obtain element | object := whole
    · rw [← parts] at element
      exact violationsOfText?_of_cutElement some_ element
    · rw [← parts] at object
      exact violationsOfText?_of_cutObject some_ object
  · have nothing := Reading.violations?_eq_none (Xml.closesOnlyOpen_events s) bad
    refine Report.ofText_eq_empty (.inl ?_)
    unfold violationsOfText?
    split
    · rename_i brace
      simp [brace] at noBrace
    · exact nothing

/-- A report of one violation, written as markup. -/
def markupReport : List Char :=
  "<r><file name='A'>".toList ++ "<violation rule='CognitiveComplexity'>".toList ++
  "cognitive complexity of 7</violation></file></r>".toList

/-- The same report, written as JSON. -/
def jsonReport : List Char :=
  "\x7b\"files\":[\x7b\"filename\":\"A\",\"violations\":[".toList ++
  "\x7b\"rule\":\"CognitiveComplexity\",".toList ++
  "\"description\":\"cognitive complexity of 7\"\x7d]\x7d]\x7d".toList

theorem wholeReport_markupReport : WholeReport markupReport := by
  have read : (Xml.events markupReport).complete = true ∧ markupReport.getLast? = some '>' ∧
      (Xml.events markupReport).events =
        [.opening "r".toList [], .opening "file".toList " name='A'".toList,
          .opening "violation".toList " rule='CognitiveComplexity'".toList,
          .text "cognitive complexity of 7".toList, .closing "violation".toList,
          .closing "file".toList, .closing "r".toList] := by
    decide +kernel
  refine .inl ⟨read.1, read.2.1, [], "r".toList, [], [.opening "file".toList " name='A'".toList,
    .opening "violation".toList " rule='CognitiveComplexity'".toList,
    .text "cognitive complexity of 7".toList, .closing "violation".toList,
    .closing "file".toList], ?_, ?_, read.2.2⟩
  · simp
  · decide

/-- Whether a document is an object. -/
def isObject : Document → Bool
  | .object _ => true
  | _ => false

theorem wholeReport_jsonReport : WholeReport jsonReport := by
  have read : (Document.ofText? jsonReport).any isObject = true ∧
      jsonReport.getLast? = some '\x7d' := by
    decide +kernel
  obtain ⟨object, last⟩ := read
  obtain ⟨d, same, object⟩ := Option.any_eq_true _ _ |>.1 object
  refine .inr ⟨last, ?_⟩
  cases d with
  | object fields => exact ⟨fields, same⟩
  | null | bool | number | string | array => simp [isObject] at object

/-- Both reports hold a value; without their last brackets neither of them does. -/
theorem Report.ofText_cutShort_oneViolation :
    Report.ofText (String.ofList ((markupReport ++ ['\n']).take 103)) = .empty ∧
    Report.ofText (String.ofList ((jsonReport ++ ['\n']).take 112)) = .empty ∧
    Reading.violations? ⟨[.opening "r".toList [], .opening "file".toList " name='A'".toList,
      .closing "file".toList], true⟩ = none ∧
    Report.ofText (String.ofList "<r></s>".toList) = .empty :=
  ⟨Report.ofText_cutShort.1 _ _ _ wholeReport_markupReport (by decide +kernel),
    Report.ofText_cutShort.1 _ _ _ wholeReport_jsonReport (by decide +kernel),
    Report.ofText_cutShort.2.1 _ (by decide) (by decide),
    Report.ofText_cutShort.2.2.2 _ (by decide +kernel) (by decide +kernel)⟩

end SuiteMetrics.Violations
