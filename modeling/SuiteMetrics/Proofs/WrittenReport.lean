import SuiteMetrics.Proofs.LastMatch
import SuiteMetrics.Proofs.OpenElements
import SuiteMetrics.Proofs.WrittenMarkup

/-!
A report as markup.

What it is for a document to list files with their violations: elements for files, in them elements
for violations, in these the messages, and anything else around them (`WritesFiles`). The reader of
reports finds these violations in it, with other blanks around a message and without the empty
elements that have no message (`run_files`). Neither changes a sum (`Alike`), since no value is
found in blanks.
-/

namespace SuiteMetrics.Violations

open Text (isBlank isMarkupBlank)

/-! ### Blanks around a message -/

theorem isDecimalDigit_of_isBlank {c : Char} (h : isBlank c = true) :
    Text.isDecimalDigit c = false := by
  have code : c.toNat ∈ [0x09, 0x0A, 0x0B, 0x0C, 0x0D, 0x20, 0x85, 0xA0, 0x1680, 0x2000, 0x2001,
      0x2002, 0x2003, 0x2004, 0x2005, 0x2006, 0x2007, 0x2008, 0x2009, 0x200A, 0x2028, 0x2029,
      0x202F, 0x205F, 0x3000] := by
    simp only [isBlank, Bool.or_eq_true, Bool.and_eq_true, decide_eq_true_eq, beq_iff_eq] at h
    simp only [List.mem_cons, List.not_mem_nil, or_false]
    omega
  unfold Text.isDecimalDigit
  generalize c.toNat = n at code
  revert n
  decide

theorem takeWhile_digits_append {back : List Char} (blank : ∀ c ∈ back, isBlank c = true)
    (s : List Char) :
    (s ++ back).takeWhile Text.isDecimalDigit = s.takeWhile Text.isDecimalDigit := by
  have none_ : back.takeWhile Text.isDecimalDigit = [] := by
    cases back with
    | nil => rfl
    | cons c back => simp [isDecimalDigit_of_isBlank (blank c List.mem_cons_self)]
  rw [List.takeWhile_append]
  split
  · rename_i all
    rw [none_, List.append_nil, (List.takeWhile_prefix _).eq_of_length all]
  · rfl

/-- Digits right after a phrase stand before the blanks at the end. -/
theorem digitsAfter?_append {back : List Char} (blank : ∀ c ∈ back, isBlank c = true)
    (phrase s : List Char) : digitsAfter? phrase (s ++ back) = digitsAfter? phrase s := by
  unfold digitsAfter?
  by_cases long : phrase.length ≤ s.length
  · have same : phrase.isPrefixOf (s ++ back) = phrase.isPrefixOf s := by
      rw [Bool.eq_iff_iff, List.isPrefixOf_iff_prefix, List.isPrefixOf_iff_prefix]
      exact ⟨fun h => List.prefix_of_prefix_length_le h (List.prefix_append s back) long,
        fun h => h.trans (List.prefix_append s back)⟩
    rw [same, List.drop_append_of_le_length long, takeWhile_digits_append blank]
  · have beyond : (s ++ back).drop phrase.length = back.drop (phrase.length - s.length) := by
      rw [List.drop_append, List.drop_eq_nil_of_le (by omega), List.nil_append]
    have none_ : (back.drop (phrase.length - s.length)).takeWhile Text.isDecimalDigit = [] :=
      takeWhile_digits_append (s := [])
        (fun c hc => blank c (List.mem_of_mem_drop hc))
    have short : ¬ phrase.isPrefixOf s = true := fun h =>
      long (List.isPrefixOf_iff_prefix.1 h).length_le
    rw [beyond, none_, if_neg short]
    split <;> rfl

theorem digitsAfter?_nil (phrase : List Char) : digitsAfter? phrase [] = none := by
  simp [digitsAfter?]

theorem lastDigits?_blank {back : List Char} (blank : ∀ c ∈ back, isBlank c = true)
    (phrase : List Char) : lastDigits? phrase back = none := by
  induction back with
  | nil => rfl
  | cons c back ih =>
      have here := digitsAfter?_append blank phrase []
      rw [List.nil_append, digitsAfter?_nil] at here
      rw [lastDigits?, ih fun c hc => blank c (List.mem_cons_of_mem _ hc), here]

theorem lastDigits?_append {back : List Char} (blank : ∀ c ∈ back, isBlank c = true)
    (phrase s : List Char) : lastDigits? phrase (s ++ back) = lastDigits? phrase s := by
  induction s with
  | nil => exact lastDigits?_blank blank phrase
  | cons c s ih =>
      rw [List.cons_append, lastDigits?, lastDigits?, ih, ← List.cons_append,
        digitsAfter?_append blank]

/-- A phrase that does not begin with a blank is not found where a blank stands. -/
theorem lastDigits?_blanks_append {front : List Char} (blank : ∀ c ∈ front, isBlank c = true)
    {phrase : List Char} {first : Char} (begins : phrase.head? = some first)
    (plain : isBlank first = false) (s : List Char) :
    lastDigits? phrase (front ++ s) = lastDigits? phrase s := by
  induction front with
  | nil => rfl
  | cons c front ih =>
      obtain ⟨others, rfl⟩ := List.head?_eq_some_iff.1 begins
      have other : ¬ (first :: others).isPrefixOf (c :: (front ++ s)) = true := by
        rw [List.isPrefixOf_iff_prefix, List.cons_prefix_cons]
        rintro ⟨rfl, -⟩
        simp [blank _ List.mem_cons_self] at plain
      rw [List.cons_append, lastDigits?, ih fun c hc => blank c (List.mem_cons_of_mem _ hc),
        digitsAfter?, if_neg other]
      cases lastDigits? (first :: others) s <;> rfl

/-- A message with other blanks around it. -/
def SameButBlanks (found message : List Char) : Prop :=
  ∃ front back, message = front ++ (found ++ back) ∧
    (∀ c ∈ front, isBlank c = true) ∧ ∀ c ∈ back, isBlank c = true

theorem SameButBlanks.extract? {found message : List Char} (h : SameButBlanks found message)
    (rule : Rule) : Violations.extract? rule message = Violations.extract? rule found := by
  obtain ⟨front, back, rfl, blankFront, blankBack⟩ := h
  have begins : rule.phrase.head? = some 'c' := by cases rule <;> rfl
  rw [extract?_eq_lastDigits?, lastDigits?_blanks_append blankFront begins rfl,
    lastDigits?_append blankBack, extract?_eq_lastDigits?]

theorem SameButBlanks.trans {found middle message : List Char} (h : SameButBlanks found middle)
    (h' : SameButBlanks middle message) : SameButBlanks found message := by
  obtain ⟨front, back, rfl, blankFront, blankBack⟩ := h
  obtain ⟨front', back', rfl, blankFront', blankBack'⟩ := h'
  refine ⟨front' ++ front, back ++ back', by simp, fun c hc => ?_, fun c hc => ?_⟩
  · exact (List.mem_append.1 hc).elim (blankFront' c) (blankFront c)
  · exact (List.mem_append.1 hc).elim (blankBack c) (blankBack' c)

theorem sameButBlanks_trim (message : List Char) : SameButBlanks (Text.trim message) message :=
  Text.trimBy_split isBlank message

/-! ### Violations with the same sums -/

/-- Lists of violations that add the same to every report. -/
def Alike (found vs : List Violation) : Prop :=
  ∀ r : Report, found.foldl Report.add r = vs.foldl Report.add r

theorem Alike.append {found found' vs vs' : List Violation} (h : Alike found vs)
    (h' : Alike found' vs') : Alike (found ++ found') (vs ++ vs') := by
  intro r
  rw [List.foldl_append, List.foldl_append, h r, h']

theorem alike_nil : Alike [] [] := fun _ => rfl

theorem alike_message {file rule : String} {found message : List Char}
    (same : SameButBlanks found message) : Alike [⟨file, rule, found⟩] [⟨file, rule, message⟩] := by
  intro r
  simp only [List.foldl_cons, List.foldl_nil, Report.add, same.extract?]

/-- A violation without a message adds nothing. -/
theorem alike_noMessage (file rule : String) : Alike [] [⟨file, rule, []⟩] := by
  intro r
  simp only [List.foldl_cons, List.foldl_nil, Report.add, extract?_eq_lastDigits?, lastDigits?,
    Option.bind_none]
  split <;> rfl

/-! ### The markup of a report -/

/-- A file of a report with the rules and messages of its violations. -/
structure FileEntry where
  file : String
  violations : List (String × String)

/-- The violations of a file one after another. -/
def FileEntry.list (f : FileEntry) : List Violation :=
  f.violations.map fun v => ⟨f.file, v.1, v.2.toList⟩

open Xml (Part Markup Name Tag Spells dataEvents)

/-- Whether an element has a local name. -/
def Named (n : Name) (word : String) : Prop := Xml.localName n.chars = word.toList

/-- Whether an element is none of a report's own. -/
def Foreign (n : Name) : Prop := ¬ Named n "file" ∧ ¬ Named n "violation"

/-- Markup around the elements of a report. -/
def Around : Markup → Prop
  | .opening tag | .empty tag => Foreign tag.name
  | .closing name _ => Foreign name
  | .aside _ _ | .section_ _ _ _ => True

/-- Markup around a message, which has to be one text. -/
def AroundMessage : Markup → Prop
  | .section_ _ _ _ => False
  | m => Around m

/-- Markup that ends an element. -/
def Ends (m : Markup) (word : String) : Prop :=
  ∃ name blanks, m = .closing name blanks ∧ Named name word

/-- No character data, blanks apart. -/
def Part.Blank (p : Part) : Prop := ∀ c ∈ p.data, isMarkupBlank c = true

/-- Parts that end a violation whose message is over. -/
inductive EndsViolation : List Part → Prop where
  | last {p : Part} : Part.Blank p → Ends p.markup "violation" → EndsViolation [p]
  | pass {p : Part} {ps : List Part} : Part.Blank p → AroundMessage p.markup → EndsViolation ps →
      EndsViolation (p :: ps)

/-- Parts behind the start tag of a violation that write its message and end it. -/
inductive WritesMessage (message : List Char) : List Part → Prop where
  | last {p : Part} : Spells p.data message → Ends p.markup "violation" → WritesMessage message [p]
  | text {p : Part} {ps : List Part} : Spells p.data message → AroundMessage p.markup →
      EndsViolation ps → WritesMessage message (p :: ps)
  | pass {p : Part} {ps : List Part} : Part.Blank p → AroundMessage p.markup →
      WritesMessage message ps → WritesMessage message (p :: ps)

/-- Parts in the element of a file that write its violations. A violation without a message may be
an empty element. -/
inductive WritesViolations : List (String × String) → List Part → Prop where
  | nil : WritesViolations [] []
  | pass {p : Part} {ps : List Part} {vs : List (String × String)} : Around p.markup →
      WritesViolations vs ps → WritesViolations vs (p :: ps)
  | element {p : Part} {tag : Tag} {inner ps : List Part} {rule message : String}
      {vs : List (String × String)} : p.markup = .opening tag → Named tag.name "violation" →
      tag.Has "rule" rule.toList → WritesMessage message.toList inner → WritesViolations vs ps →
      WritesViolations ((rule, message) :: vs) (p :: (inner ++ ps))
  | empty {p : Part} {tag : Tag} {ps : List Part} {rule : String} {vs : List (String × String)} :
      p.markup = .empty tag → Named tag.name "violation" → tag.Has "rule" rule.toList →
      WritesViolations vs ps → WritesViolations ((rule, "") :: vs) (p :: ps)

/-- Parts that write the files of a report. A file without violations may be an empty element. -/
inductive WritesFiles : List FileEntry → List Part → Prop where
  | nil : WritesFiles [] []
  | pass {p : Part} {ps : List Part} {fs : List FileEntry} : Around p.markup →
      WritesFiles fs ps → WritesFiles fs (p :: ps)
  | element {p q : Part} {tag : Tag} {inner ps : List Part} {f : FileEntry}
      {fs : List FileEntry} : p.markup = .opening tag → Named tag.name "file" →
      tag.Has "name" f.file.toList → WritesViolations f.violations inner →
      Ends q.markup "file" → WritesFiles fs ps → WritesFiles (f :: fs) (p :: (inner ++ q :: ps))
  | empty {p : Part} {tag : Tag} {ps : List Part} {file : String} {fs : List FileEntry} :
      p.markup = .empty tag → Named tag.name "file" → tag.Has "name" file.toList →
      WritesFiles fs ps → WritesFiles (⟨file, []⟩ :: fs) (p :: ps)

/-! ### Reading the markup -/

namespace Reading

/-- The reading after some parts of a document. -/
def run (ps : List Part) (r : Reading) : Option Reading :=
  (ps.flatMap Part.events).foldlM step? r

theorem run_cons (p : Part) (ps : List Part) (r : Reading) :
    run (p :: ps) r =
      ((dataEvents p.data).foldlM step? r).bind fun r =>
        (r.step? p.markup.event).bind (run ps) := by
  simp only [run, List.flatMap_cons, Part.events, List.foldlM_append, List.foldlM_cons,
    List.foldlM_nil, Option.bind_eq_bind, Option.bind_assoc, Option.pure_def]
  rfl

theorem run_append (ps qs : List Part) (r : Reading) :
    run (ps ++ qs) r = (run ps r).bind (run qs) := by
  simp only [run, List.flatMap_append, List.foldlM_append]
  rfl

variable {r : Reading}

theorem data_outside (outside : r.violation = none) (data : List Char) :
    (dataEvents data).foldlM step? r = some r := by
  simp only [dataEvents]
  split
  · rfl
  · simp [step?, outside]

theorem data_blank {p : Part} (blank : Part.Blank p) :
    (dataEvents p.data).foldlM step? r = some r := by
  rw [Xml.dataEvents_eq_nil_iff.2 blank]
  rfl

theorem attribute?_rest {tag : Tag} {key value : String} (h : tag.Has key value.toList) :
    attribute? key tag.rest = some (some value) := by
  simp only [attribute?, Xml.lookup_rest h, String.ofList_toList]

theorem step_file {tag : Tag} {file : String} (named : Named tag.name "file")
    (has : tag.Has "name" file.toList) :
    r.step? (Markup.opening tag).event =
      some { r with depth := r.depth + 1, file := some file } := by
  simp [step?, Markup.event, show Xml.localName tag.name.chars = _ from named, attribute?_rest has]

theorem step_violation {tag : Tag} {rule : String} (named : Named tag.name "violation")
    (has : tag.Has "rule" rule.toList) :
    r.step? (Markup.opening tag).event =
      some { r with depth := r.depth + 1, violation := some (rule, []) } := by
  simp [step?, Markup.event, show Xml.localName tag.name.chars = _ from named, attribute?_rest has]

theorem named_of_ofList {n : Name} {word : String}
    (h : String.ofList (Xml.localName n.chars) = word) : Named n word := by
  rw [Named, ← h, String.toList_ofList]

/-- Markup around the elements of a report changes no more than the depth. -/
theorem step_around {m : Markup} (around : Around m)
    (ok : r.violation = none ∨ AroundMessage m) :
    ∃ depth, r.step? m.event = some { r with depth := depth } := by
  cases m with
  | opening tag =>
      refine ⟨r.depth + 1, ?_⟩
      simp only [step?, Markup.event]
      split
      · rename_i same
        exact absurd (named_of_ofList same) around.1
      · rename_i same
        exact absurd (named_of_ofList same) around.2
      · rfl
  | empty tag => exact ⟨r.depth, rfl⟩
  | closing name blanks =>
      refine ⟨r.depth - 1, ?_⟩
      simp only [step?, Markup.event]
      split
      · rename_i same
        exact absurd (named_of_ofList same) around.2
      · rename_i same
        exact absurd (named_of_ofList same) around.1
      · rfl
  | aside written reads => exact ⟨r.depth, rfl⟩
  | section_ inside written reads =>
      obtain outside | no := ok
      · refine ⟨r.depth, ?_⟩
        cases r
        simp_all [step?, Markup.event, append]
      · exact no.elim

theorem around_of_aroundMessage {m : Markup} (h : AroundMessage m) : Around m := by
  cases m with
  | section_ => trivial
  | opening | empty | closing | aside => exact h

theorem step_endViolation {m : Markup} (ends : Ends m "violation") {depth : Nat}
    {file rule : String} {text : List Char} {done : List Violation} :
    step? ⟨depth, some file, some (rule, text), done⟩ m.event =
      some ⟨depth - 1, some file, none, ⟨file, rule, Text.trim text⟩ :: done⟩ := by
  obtain ⟨name, blanks, rfl, named⟩ := ends
  simp [step?, Markup.event, show Xml.localName name.chars = _ from named, finish]

theorem step_endFile {m : Markup} (ends : Ends m "file") :
    r.step? m.event = some { r with depth := r.depth - 1, file := none } := by
  obtain ⟨name, blanks, rfl, named⟩ := ends
  simp [step?, Markup.event, show Xml.localName name.chars = _ from named]

section Violation

variable {file rule : String} {done : List Violation}

/-- The character data of a message is read as the message, blanks at its ends apart. -/
theorem data_message {data message : List Char} (spells : Spells data message) (depth : Nat) :
    ∃ found, (dataEvents data).foldlM step? ⟨depth, some file, some (rule, []), done⟩ =
      some ⟨depth, some file, some (rule, found), done⟩ ∧ SameButBlanks found message := by
  obtain ⟨front, back, found, -, read, rfl, blankFront, blankBack⟩ :=
    Xml.unescape?_trimBy spells.unescape?
  refine ⟨found, ?_, front, back, rfl, fun c hc => Text.isBlank_of_isMarkupBlank (blankFront c hc),
    fun c hc => Text.isBlank_of_isMarkupBlank (blankBack c hc)⟩
  simp only [dataEvents]
  split
  · rename_i nothing
    rw [List.isEmpty_iff.1 nothing] at read
    obtain rfl : found = [] := by simpa [Xml.unescape?, Xml.unescapeFrom, eq_comm] using read
    rfl
  · simp [step?, read, append]

theorem run_pass {p : Part} (around : AroundMessage p.markup) {message text : List Char}
    {depth : Nat} (data : (dataEvents p.data).foldlM step?
      ⟨depth, some file, some (rule, message), done⟩ =
        some ⟨depth, some file, some (rule, text), done⟩) (ps : List Part) :
    ∃ depth', run (p :: ps) ⟨depth, some file, some (rule, message), done⟩ =
      run ps ⟨depth', some file, some (rule, text), done⟩ := by
  obtain ⟨depth', step⟩ := step_around (r := ⟨depth, some file, some (rule, text), done⟩)
    (around_of_aroundMessage around) (.inr around)
  exact ⟨depth', by rw [run_cons, data, Option.bind_some, step, Option.bind_some]⟩

theorem run_last {p : Part} (ends : Ends p.markup "violation") {message text : List Char}
    {depth : Nat} (data : (dataEvents p.data).foldlM step?
      ⟨depth, some file, some (rule, message), done⟩ =
        some ⟨depth, some file, some (rule, text), done⟩) :
    run [p] ⟨depth, some file, some (rule, message), done⟩ =
      some ⟨depth - 1, some file, none, ⟨file, rule, Text.trim text⟩ :: done⟩ := by
  rw [run_cons, data, Option.bind_some, step_endViolation ends]
  rfl

theorem run_endsViolation {ps : List Part} (h : EndsViolation ps) (text : List Char)
    (depth : Nat) :
    ∃ depth', run ps ⟨depth, some file, some (rule, text), done⟩ =
      some ⟨depth', some file, none, ⟨file, rule, Text.trim text⟩ :: done⟩ := by
  induction h generalizing depth with
  | last blank ends => exact ⟨depth - 1, run_last ends (data_blank blank)⟩
  | @pass p ps blank around _ ih =>
      obtain ⟨next, passed⟩ := run_pass around (data_blank blank) ps
      rw [passed]
      exact ih next

variable (file rule done) in
/-- A violation is read with its message, blanks at its ends apart. -/
theorem run_message {message : List Char} {ps : List Part} (h : WritesMessage message ps)
    (depth : Nat) :
    ∃ depth' found, run ps ⟨depth, some file, some (rule, []), done⟩ =
      some ⟨depth', some file, none, ⟨file, rule, found⟩ :: done⟩ ∧
        SameButBlanks found message := by
  induction h generalizing depth with
  | last spells ends =>
      obtain ⟨found, data, same⟩ := data_message spells depth
      exact ⟨depth - 1, Text.trim found, run_last ends data, (sameButBlanks_trim found).trans same⟩
  | @text p ps spells around ends =>
      obtain ⟨found, data, same⟩ := data_message spells depth
      obtain ⟨next, passed⟩ := run_pass around data ps
      obtain ⟨depth', rest⟩ := run_endsViolation ends found next
      exact ⟨depth', Text.trim found, passed.trans rest, (sameButBlanks_trim found).trans same⟩
  | @pass p ps blank around _ ih =>
      obtain ⟨next, passed⟩ := run_pass around (data_blank blank) ps
      rw [passed]
      exact ih next

end Violation

/-- The violations of a file are read. -/
theorem run_violations {file : String} {vs : List (String × String)} {ps : List Part}
    (h : WritesViolations vs ps) (depth : Nat) (done : List Violation) :
    ∃ depth' found, run ps ⟨depth, some file, none, done⟩ =
      some ⟨depth', some file, none, found.reverse ++ done⟩ ∧
        Alike found (FileEntry.mk file vs).list := by
  induction h generalizing depth done with
  | nil => exact ⟨depth, [], rfl, alike_nil⟩
  | @pass p ps vs around _ ih =>
      obtain ⟨next, step⟩ := step_around (r := ⟨depth, some file, none, done⟩) around (.inl rfl)
      obtain ⟨depth', found, rest, alike⟩ := ih next done
      refine ⟨depth', found, ?_, alike⟩
      rw [run_cons, data_outside rfl, Option.bind_some, step, Option.bind_some]
      exact rest
  | @element p tag inner ps rule message vs markup named has writes _ ih =>
      obtain ⟨next, text, read, same⟩ := run_message file rule done writes (depth + 1)
      obtain ⟨depth', found, rest, alike⟩ := ih next (⟨file, rule, text⟩ :: done)
      refine ⟨depth', ⟨file, rule, text⟩ :: found, ?_, (alike_message same).append alike⟩
      rw [run_cons, data_outside rfl, Option.bind_some, markup, step_violation named has,
        Option.bind_some, run_append, read, Option.bind_some, rest]
      simp
  | @empty p tag ps rule vs markup named has _ ih =>
      obtain ⟨depth', found, rest, alike⟩ := ih depth done
      refine ⟨depth', found, ?_, (alike_noMessage file rule).append alike⟩
      rw [run_cons, data_outside rfl, Option.bind_some, markup]
      exact rest

/-- The files of a report are read. -/
theorem run_files {fs : List FileEntry} {ps : List Part} (h : WritesFiles fs ps) (depth : Nat)
    (done : List Violation) :
    ∃ depth' found, run ps ⟨depth, none, none, done⟩ =
      some ⟨depth', none, none, found.reverse ++ done⟩ ∧
        Alike found (fs.flatMap FileEntry.list) := by
  induction h generalizing depth done with
  | nil => exact ⟨depth, [], rfl, alike_nil⟩
  | @pass p ps fs around _ ih =>
      obtain ⟨next, step⟩ := step_around (r := ⟨depth, none, none, done⟩) around (.inl rfl)
      obtain ⟨depth', found, rest, alike⟩ := ih next done
      refine ⟨depth', found, ?_, alike⟩
      rw [run_cons, data_outside rfl, Option.bind_some, step, Option.bind_some]
      exact rest
  | @element p q tag inner ps f fs markup named has violations ends _ ih =>
      obtain ⟨next, inFile, read, alike⟩ := run_violations violations (depth + 1) done
      obtain ⟨depth', found, rest, alike'⟩ := ih (next - 1) (inFile.reverse ++ done)
      refine ⟨depth', inFile ++ found, ?_, alike.append alike'⟩
      rw [run_cons, data_outside rfl, Option.bind_some, markup, step_file named has,
        Option.bind_some, run_append, read, Option.bind_some, run_cons, data_outside rfl,
        Option.bind_some, step_endFile ends, Option.bind_some, rest]
      simp
  | @empty p tag ps file fs markup named has _ ih =>
      obtain ⟨depth', found, rest, alike⟩ := ih depth done
      refine ⟨depth', found, ?_, alike_nil.append alike⟩
      rw [run_cons, data_outside rfl, Option.bind_some, markup]
      exact rest

end Reading

/-- A text that writes a report as markup. -/
def WritesMarkup (files : List FileEntry) (text : List Char) : Prop :=
  ∃ d : Xml.Document, d.text = text ∧ WritesFiles files d.parts

theorem excess_of_nested {es : List Xml.Event} {names inner : List (List Char)}
    (h : es.foldlM Xml.openAfter? names = some inner) :
    (inner.length : Int) = names.length + Xml.excess es := by
  induction es generalizing names with
  | nil =>
      obtain rfl := Option.some.inj h
      simp
  | cons e es ih =>
      rw [List.foldlM_cons] at h
      obtain ⟨next, fits, rest⟩ := Option.bind_eq_some_iff.1 h
      rw [ih rest, Xml.length_openAfter? fits, Xml.excess_cons, Int.add_assoc]

theorem excess_parts (ps : List Part) :
    Xml.excess (ps.flatMap Part.events) = Xml.excess (ps.map (·.markup.event)) := by
  induction ps with
  | nil => rfl
  | cons p ps ih => simp [Part.events, ih]

/-- Every element of a document is closed in it. -/
theorem excess_events (d : Xml.Document) : Xml.excess (Xml.events d.text).events = 0 := by
  have closed := excess_of_nested d.nested
  rw [d.events_text, Xml.excess_append, Xml.excess_dataEvents, excess_parts]
  simpa [Xml.Document.parts, eq_comm] using closed

/-- A document is read as markup. -/
theorem violationsOfText?_document (d : Xml.Document) :
    violationsOfText? d.text = Reading.violations? (Xml.events d.text) := by
  have begins := d.no_brace
  unfold violationsOfText?
  split
  · rename_i brace
    simp [brace] at begins
  · rfl

/-- A report written as markup is read with the same sums. -/
theorem ofText_of_writesMarkup {files : List FileEntry} {text : List Char}
    (h : WritesMarkup files text) :
    Report.ofText (String.ofList text) = .ofViolations (files.flatMap FileEntry.list) := by
  obtain ⟨d, rfl, writes⟩ := h
  obtain ⟨depth, found, parts, alike⟩ := Reading.run_files writes 0 []
  have run : (Xml.events d.text).events.foldlM Reading.step? Reading.start =
      some ⟨depth, none, none, found.reverse ++ []⟩ := by
    rw [d.events_text, List.foldlM_append]
    exact Option.bind_eq_some_iff.2 ⟨_, parts, Reading.data_outside rfl d.last⟩
  have closed : depth = 0 := by
    have := Reading.depth_of_run run (Xml.closesOnlyOpen_events d.text)
    rw [excess_events] at this
    simpa [Reading.start] using this
  have complete : (Xml.events d.text).complete = true := by rw [d.events_text]
  have read : violationsOfText? d.text = some found := by
    simp [violationsOfText?_document, Reading.violations?, run, complete, closed]
  rw [Report.ofText, String.toList_ofList, read]
  exact alike Report.empty

end SuiteMetrics.Violations
