import Mathlib.Data.List.Forall2
import SuiteMetrics.Json.Writer
import SuiteMetrics.Proofs.JsonReport

/-!
Every report can be written.

One way to write a report as markup, with references for the three characters that need them, and
one way to write it as JSON, with the escapes of `Json.escapeChar`. So what is proved of all texts
that write a report is true of some text for every report.
-/

namespace SuiteMetrics

def Text.noBlanks : Blanks := ⟨[], by simp⟩

/-! ### Markup -/

namespace Xml

open Text (noBlanks)

/-- A character in markup, where neither a tag nor a reference nor the end of a value may begin. -/
def spell : Char → List Char
  | '&' => "&amp;".toList
  | '<' => "&lt;".toList
  | '"' => "&quot;".toList
  | c => [c]

theorem Spells.named {written text : List Char} (h : Spells written text) (name : String)
    {c : Char} (known : reference? name.toList = some c) :
    Spells ('&' :: (name.toList ++ [';']) ++ written) (c :: text) := by
  simpa using Spells.reference known h

theorem spells_spell (text : List Char) : Spells (text.flatMap spell) text := by
  induction text with
  | nil => exact .nil
  | cons c text ih =>
      rw [List.flatMap_cons]
      unfold spell
      split
      · exact ih.named "amp" rfl
      · exact ih.named "lt" rfl
      · exact ih.named "quot" rfl
      · rename_i noMark _ _
        exact .plain noMark ih

theorem not_mem_spell {mark : Char} (h : mark = '<' ∨ mark = '"') (text : List Char) :
    mark ∉ text.flatMap spell := by
  intro mem
  obtain ⟨c, -, hc⟩ := List.mem_flatMap.1 mem
  unfold spell at hc
  split at hc
  · obtain rfl | rfl := h <;> simp at hc
  · obtain rfl | rfl := h <;> simp at hc
  · obtain rfl | rfl := h <;> simp at hc
  · obtain rfl := List.mem_singleton.1 hc
    simp_all

/-- A name without other characters than those of a word. -/
def word (s : String) (nonempty : s.toList ≠ []) (plain : s.toList.all isNameChar = true) : Name :=
  ⟨s.toList, nonempty, List.all_eq_true.1 plain⟩

/-- An element with one attribute. -/
def tagWith (element key : Name) (text : List Char) : Tag where
  name := element
  attributes := [{
    blank := ⟨' ', rfl⟩
    blanks := noBlanks
    name := key
    before := noBlanks
    after := noBlanks
    quote := .double
    value := text.flatMap spell
    closes := not_mem_spell (.inr rfl) text }]
  blanks := noBlanks

theorem tagWith_has {element key : Name} {text : List Char} {sought : String}
    (named : localName key.chars = sought.toList) : (tagWith element key text).Has sought text :=
  ⟨[], _, [], rfl, by simp, by simp, named, spells_spell text⟩

/-- Parts that close every element that they open. -/
def Balanced (ps : List Part) : Prop :=
  ∀ names, (ps.map (·.markup.event)).foldlM openAfter? names = some names

theorem Balanced.append {ps qs : List Part} (h : Balanced ps) (h' : Balanced qs) :
    Balanced (ps ++ qs) := by
  intro names
  rw [List.map_append, List.foldlM_append, h names]
  exact h' names

theorem balanced_flatMap {α : Type} {parts : α → List Part} (each : ∀ a, Balanced (parts a))
    (as : List α) : Balanced (as.flatMap parts) := by
  induction as with
  | nil => exact fun _ => rfl
  | cons a as ih => exact (each a).append ih

/-- An element around some parts. -/
def element (t : Tag) (inner : List Part) (data : List Char) (plain : '<' ∉ data) : List Part :=
  ⟨[], by simp, .opening t⟩ :: (inner ++ [⟨data, plain, .closing t.name noBlanks⟩])

theorem balanced_element {t : Tag} {inner : List Part} (h : Balanced inner) {data : List Char}
    (plain : '<' ∉ data) : Balanced (element t inner data plain) := by
  intro names
  have opens : openAfter? names (Markup.opening t).event = some (t.name.chars :: names) := rfl
  have closes : openAfter? (t.name.chars :: names) (Markup.closing t.name noBlanks).event =
      some names := by
    simp [openAfter?, Markup.event]
  rw [element, List.map_cons, List.foldlM_cons, opens]
  simp only [Option.bind_eq_bind, Option.bind_some, List.map_append, List.foldlM_append, h _,
    List.map_cons, List.map_nil, List.foldlM_cons, closes, List.foldlM_nil]
  rfl

end Xml

/-! ### JSON -/

namespace Json

open Text (noBlanks)

/-- A document that can be written. -/
def Writable (d : Document) : Prop := ∃ written, Spelled (.value d) written

theorem unit?_control : ∀ n < 0x20,
    unit? '0' '0' (hexDigit (n / 16)) (hexDigit (n % 16)) = some n ∧
      isHighSurrogate n = false ∧ isLowSurrogate n = false := by
  decide

/-- What is written between quotes is read back. -/
theorem spelledChars_escapeChar (text : List Char) :
    SpelledChars (text.flatMap escapeChar) text := by
  induction text with
  | nil => exact .nil
  | cons c text ih =>
      rw [List.flatMap_cons]
      unfold escapeChar
      split
      case h_8 quote backslash _ _ _ _ _ =>
        split
        case isTrue control =>
          obtain ⟨value, high, low⟩ := unit?_control c.toNat control
          have unit := SpelledChars.unit value high low ih
          rwa [Char.ofNat_toNat] at unit
        case isFalse control => exact .plain quote backslash control ih
      -- the other characters have an escape of one letter
      all_goals exact .escape rfl ih

theorem exists_spelled_string (s : String) :
    ∃ written text, SpelledChars written text ∧ String.ofList text = s := by
  exact ⟨_, _, spelledChars_escapeChar s.toList, String.ofList_toList⟩

theorem writable_string (s : String) : Writable (.string s) := by
  obtain ⟨written, text, spelled, rfl⟩ := exists_spelled_string s
  exact ⟨_, .string noBlanks spelled⟩

theorem exists_spelled_items {d : Document} {ds : List Document} (here : Writable d)
    (others : ∀ e ∈ ds, Writable e) : ∃ written, Spelled (.items (d :: ds)) written := by
  induction ds generalizing d with
  | nil =>
      obtain ⟨written, here⟩ := here
      exact ⟨_, .lastItem noBlanks here⟩
  | cons e ds ih =>
      obtain ⟨written, here⟩ := here
      obtain ⟨rest, others⟩ := ih (others e List.mem_cons_self)
        fun e he => others e (List.mem_cons_of_mem _ he)
      exact ⟨_, .item noBlanks here others⟩

theorem writable_array {ds : List Document} (all : ∀ d ∈ ds, Writable d) :
    Writable (.array ds) := by
  cases ds with
  | nil => exact ⟨_, .emptyArray noBlanks noBlanks⟩
  | cons d ds =>
      obtain ⟨written, items⟩ := exists_spelled_items (all d List.mem_cons_self)
        fun e he => all e (List.mem_cons_of_mem _ he)
      exact ⟨_, .array noBlanks items⟩

theorem exists_spelled_fields {f : String × Document} {fs : List (String × Document)}
    (here : Writable f.2) (others : ∀ g ∈ fs, Writable g.2) :
    ∃ written, Spelled (.fields ((f :: fs).map fun g => (some g.1, g.2))) written := by
  induction fs generalizing f with
  | nil =>
      obtain ⟨name, d⟩ := f
      obtain ⟨key, text, spelledKey, rfl⟩ := exists_spelled_string name
      obtain ⟨written, here⟩ := here
      exact ⟨_, .lastField noBlanks noBlanks noBlanks spelledKey here⟩
  | cons g fs ih =>
      obtain ⟨name, d⟩ := f
      obtain ⟨key, text, spelledKey, rfl⟩ := exists_spelled_string name
      obtain ⟨written, here⟩ := here
      obtain ⟨rest, others⟩ := ih (others g List.mem_cons_self)
        fun h hh => others h (List.mem_cons_of_mem _ hh)
      exact ⟨_, .field noBlanks noBlanks noBlanks spelledKey here others⟩

theorem writable_object {fs : List (String × Document)} (all : ∀ f ∈ fs, Writable f.2) :
    Writable (.object (fs.map fun f => (some f.1, f.2))) := by
  cases fs with
  | nil => exact ⟨_, .emptyObject noBlanks noBlanks⟩
  | cons f fs =>
      obtain ⟨written, fields⟩ := exists_spelled_fields (all f List.mem_cons_self)
        fun g hg => all g (List.mem_cons_of_mem _ hg)
      exact ⟨_, .object noBlanks fields⟩

end Json

/-! ### Reports -/

namespace Violations

open Text (noBlanks)
open Xml (Name Part Tag Balanced word tagWith element)
open Json (Document Writable)

def pmdTag : Tag := ⟨word "pmd" (by decide) (by decide), [], noBlanks⟩

def fileTag (file : String) : Tag :=
  tagWith (word "file" (by decide) (by decide)) (word "name" (by decide) (by decide)) file.toList

def violationTag (rule : String) : Tag :=
  tagWith (word "violation" (by decide) (by decide)) (word "rule" (by decide) (by decide))
    rule.toList

theorem named_fileTag (file : String) : Named (fileTag file).name "file" := rfl

theorem named_violationTag (rule : String) : Named (violationTag rule).name "violation" := rfl

theorem foreign_pmdTag : Foreign pmdTag.name := by
  unfold Foreign Named
  decide

/-- The element of a violation. -/
def violationParts (v : String × String) : List Part :=
  element (violationTag v.1) [] (v.2.toList.flatMap Xml.spell) (Xml.not_mem_spell (.inl rfl) _)

/-- The element of a file. -/
def fileParts (f : FileEntry) : List Part :=
  element (fileTag f.file) (f.violations.flatMap violationParts) [] (by simp)

/-- The document of a report. -/
def markupDocument (fs : List FileEntry) : Xml.Document where
  marked := false
  first := ⟨[], by simp, .opening pmdTag⟩
  blank := by simp
  others := fs.flatMap fileParts ++ [⟨[], by simp, .closing pmdTag.name noBlanks⟩]
  last := []
  plain := by simp
  nested := by
    have violation (v : String × String) : Balanced (violationParts v) :=
      Xml.balanced_element (fun _ => rfl) _
    have file (f : FileEntry) : Balanced (fileParts f) :=
      Xml.balanced_element (Xml.balanced_flatMap violation f.violations) _
    exact Xml.balanced_element (t := pmdTag) (Xml.balanced_flatMap file fs) _ []

theorem writesViolations_parts (vs : List (String × String)) :
    WritesViolations vs (vs.flatMap violationParts) := by
  induction vs with
  | nil => exact .nil
  | cons v vs ih =>
      have message : WritesMessage v.2.toList
          [⟨v.2.toList.flatMap Xml.spell, Xml.not_mem_spell (.inl rfl) _,
            .closing (violationTag v.1).name noBlanks⟩] :=
        .last (Xml.spells_spell _) ⟨_, _, rfl, named_violationTag v.1⟩
      exact .element rfl (named_violationTag v.1) (Xml.tagWith_has rfl) message ih

theorem writesFiles_parts (fs : List FileEntry) {after : List Part} (h : WritesFiles [] after) :
    WritesFiles fs (fs.flatMap fileParts ++ after) := by
  induction fs with
  | nil => exact h
  | cons f fs ih =>
      have file := WritesFiles.element (p := ⟨[], by simp, .opening (fileTag f.file)⟩)
        (q := ⟨[], by simp, .closing (fileTag f.file).name noBlanks⟩) rfl (named_fileTag f.file)
        (Xml.tagWith_has rfl) (writesViolations_parts f.violations)
        ⟨_, _, rfl, named_fileTag f.file⟩ ih
      simpa [fileParts, element] using file

/-- Every report can be written as markup. -/
theorem exists_writesMarkup (fs : List FileEntry) : ∃ text, WritesMarkup fs text := by
  refine ⟨_, markupDocument fs, rfl, ?_⟩
  have after : WritesFiles [] [⟨[], by simp, .closing pmdTag.name noBlanks⟩] :=
    .pass foreign_pmdTag .nil
  exact .pass foreign_pmdTag (writesFiles_parts fs after)

def violationDocument (v : String × String) : Document :=
  .object ([("rule", .string v.1), ("description", .string v.2)].map fun f => (some f.1, f.2))

def fileDocument (f : FileEntry) : Document :=
  .object ([("filename", .string f.file),
    ("violations", .array (f.violations.map violationDocument))].map fun f => (some f.1, f.2))

def jsonDocument (fs : List FileEntry) : Document :=
  .object ([("files", .array (fs.map fileDocument))].map fun f => (some f.1, f.2))

theorem listsViolation_document (v : String × String) : ListsViolation v (violationDocument v) :=
  ⟨_, rfl, ⟨[], _, rfl, by simp⟩, ⟨[_], [], rfl, by simp⟩⟩

theorem listsFile_document (f : FileEntry) : ListsFile f (fileDocument f) :=
  ⟨_, _, rfl, ⟨[], _, rfl, by simp⟩, ⟨[_], [], rfl, by simp⟩,
    List.forall₂_map_right_iff.2 (List.forall₂_same.2 fun v _ => listsViolation_document v)⟩

theorem listsFiles_document (fs : List FileEntry) : ListsFiles fs (jsonDocument fs) :=
  ⟨_, _, rfl, ⟨[], [], rfl, by simp⟩,
    List.forall₂_map_right_iff.2 (List.forall₂_same.2 fun f _ => listsFile_document f)⟩

theorem writable_jsonDocument (fs : List FileEntry) : Writable (jsonDocument fs) := by
  have violation (v : String × String) : Writable (violationDocument v) :=
    Json.writable_object (by simp [Json.writable_string])
  have file (f : FileEntry) : Writable (fileDocument f) := by
    refine Json.writable_object ?_
    simpa [Json.writable_string] using
      Json.writable_array (List.forall_mem_map.2 fun v _ => violation v)
  refine Json.writable_object ?_
  simpa using Json.writable_array (List.forall_mem_map.2 fun f _ => file f)

/-- Every report can be written as JSON. -/
theorem exists_writesJson (fs : List FileEntry) : ∃ text, WritesJson fs text := by
  obtain ⟨written, spelled⟩ := writable_jsonDocument fs
  exact ⟨_, _, written, noBlanks, rfl, spelled, listsFiles_document fs⟩

end Violations

end SuiteMetrics
