import Mathlib.Data.List.TakeWhile
import SuiteMetrics.Proofs.TextParts
import SuiteMetrics.Xml.Event

/-!
Character data as it is written.

A text is written with any of its characters as a reference; an ampersand has to be
(`Spells`). Reading replaces the references (`Spells.unescape?`), and blanks that are taken off
the ends of what is written are taken off the ends of the text it spells
(`unescape?_trimBy`), for no reference begins or ends with a blank.
-/

namespace SuiteMetrics

namespace Xml

open Text (isMarkupBlank)

/-- How a text may be written: any character but an ampersand as it is, and any character by a
reference. -/
inductive Spells : List Char → List Char → Prop where
  | nil : Spells [] []
  | plain {c : Char} {written text : List Char} : c ≠ '&' → Spells written text →
      Spells (c :: written) (c :: text)
  | reference {name written text : List Char} {c : Char} : reference? name = some c →
      Spells written text → Spells ('&' :: (name ++ ';' :: written)) (c :: text)

/-! ### References -/

attribute [local simp] unescapeFrom

/-- Whether a character begins or ends a reference. -/
def isMark (c : Char) : Bool := c == '&' || c == ';'

theorem digitIn?_mark {base : Nat} {c : Char} (mark : isMark c = true) :
    digitIn? base c = none := by
  simp only [isMark, Bool.or_eq_true, beq_iff_eq] at mark
  obtain rfl | rfl := mark <;> simp [digitIn?]

/-- A numeral is made of digits. -/
theorem isMark_of_numeral? {base n : Nat} {ds : List Char} (h : numeral? base ds = some n) :
    ∀ c ∈ ds, isMark c = false := by
  have digits (ds : List Char) (start : Nat) (h : ds.foldlM
      (fun n c => (digitIn? base c).map (base * n + ·)) start = some n) :
      ∀ c ∈ ds, isMark c = false := by
    induction ds generalizing start with
    | nil => simp
    | cons d ds ih =>
        rw [List.foldlM_cons] at h
        obtain ⟨next, digit, rest⟩ := Option.bind_eq_some_iff.1 h
        intro c hc
        obtain rfl | hc := List.mem_cons.1 hc
        · by_contra mark
          rw [Bool.not_eq_false] at mark
          simp [digitIn?_mark mark] at digit
        · exact ih next rest c hc
  unfold numeral? at h
  split at h
  · simp at h
  · exact digits ds 0 h

/-- The name of a reference does not begin or end another one. -/
theorem isMark_of_reference? {name : List Char} {c : Char} (h : reference? name = some c) :
    ∀ d ∈ name, isMark d = false := by
  unfold reference? at h
  split at h
  · rename_i ds
    obtain ⟨code, value, -⟩ := Option.bind_eq_some_iff.1 h
    simpa [isMark] using isMark_of_numeral? value
  · rename_i ds _
    obtain ⟨code, value, -⟩ := Option.bind_eq_some_iff.1 h
    simpa [isMark] using isMark_of_numeral? value
  · have named {word : String} (same : String.ofList name = word) : name = word.toList := by
      rw [← same, String.toList_ofList]
    split at h
    case h_6 => simp at h
    all_goals
      rename_i same
      rw [named same]
      simp [isMark]

theorem unescapeFrom_name {name : List Char} (plain : ∀ d ∈ name, isMark d = false)
    (done before rest : List Char) :
    unescapeFrom done (some before) (name ++ rest) =
      unescapeFrom done (some (name.reverse ++ before)) rest := by
  induction name generalizing before with
  | nil => rfl
  | cons d name ih =>
      have := plain d List.mem_cons_self
      simp only [isMark, Bool.or_eq_false_iff, beq_eq_false_iff_ne] at this
      rw [List.cons_append, unescapeFrom, if_neg this.1, if_neg this.2,
        ih fun d hd => plain d (List.mem_cons_of_mem _ hd)]
      simp

/-- Reading what is written gives the text. -/
theorem Spells.unescape? {written text : List Char} (h : Spells written text) :
    Xml.unescape? written = some text := by
  suffices go : ∀ done, unescapeFrom done none written = some (done.reverse ++ text) from go []
  induction h with
  | nil => simp
  | plain noMark _ ih =>
      intro done
      rw [unescapeFrom]
      simp only [if_neg noMark, ih]
      simp
  | reference known _ ih =>
      intro done
      rw [unescapeFrom]
      simp only [if_true]
      rw [unescapeFrom_name (isMark_of_reference? known), unescapeFrom]
      simp [known, ih]

/-! ### Blanks at the ends -/

theorem unescapeFrom_done (done : List Char) (name : Option (List Char)) (s : List Char) :
    unescapeFrom done name s = (unescapeFrom [] name s).map (done.reverse ++ ·) := by
  induction s generalizing done name with
  | nil => cases name <;> simp
  | cons c r ih =>
      cases name with
      | none =>
          by_cases mark : c = '&'
          · simp only [unescapeFrom, if_pos mark]
            exact ih done (some [])
          · simp only [unescapeFrom, if_neg mark]
            rw [ih (c :: done), ih [c], Option.map_map]
            congr 1
            funext text
            simp
      | some name =>
          by_cases mark : c = '&'
          · simp only [unescapeFrom, if_pos mark, Option.map_none]
          · by_cases ends : c = ';'
            · simp only [unescapeFrom, if_neg mark, if_pos ends]
              cases reference? name.reverse with
              | none => rfl
              | some replaced =>
                  dsimp only
                  rw [ih (replaced :: done), ih [replaced], Option.map_map]
                  congr 1
                  funext text
                  simp
            · simp only [unescapeFrom, if_neg mark, if_neg ends]
              exact ih done _

theorem unescapeFrom_blanks {back : List Char} (blank : ∀ c ∈ back, isMarkupBlank c = true)
    (done : List Char) (name : Option (List Char)) :
    unescapeFrom done name back = (unescapeFrom done name []).map (· ++ back) := by
  induction back generalizing done name with
  | nil => simp
  | cons c back ih =>
      have hc := blank c List.mem_cons_self
      have mark : c ≠ '&' := by
        rintro rfl
        simp [isMarkupBlank] at hc
      have ends : c ≠ ';' := by
        rintro rfl
        simp [isMarkupBlank] at hc
      have rest := ih fun c hc => blank c (List.mem_cons_of_mem _ hc)
      cases name with
      | none =>
          simp only [unescapeFrom, if_neg mark]
          rw [rest]
          simp
      | some name =>
          simp only [unescapeFrom, if_neg mark, if_neg ends]
          rw [rest]
          simp

/-- Blanks stand for themselves. -/
theorem unescapeFrom_append_blanks {back : List Char}
    (blank : ∀ c ∈ back, isMarkupBlank c = true) (done : List Char) (name : Option (List Char))
    (s : List Char) :
    unescapeFrom done name (s ++ back) = (unescapeFrom done name s).map (· ++ back) := by
  induction s generalizing done name with
  | nil => exact unescapeFrom_blanks blank done name
  | cons c r ih =>
      cases name with
      | none =>
          simp only [List.cons_append, unescapeFrom]
          split
          · exact ih done _
          · exact ih _ none
      | some name =>
          simp only [List.cons_append, unescapeFrom]
          split
          · rfl
          · split
            · split
              · exact ih _ none
              · rfl
            · exact ih done _

theorem unescape?_blanks_append {front : List Char}
    (blank : ∀ c ∈ front, isMarkupBlank c = true) (s : List Char) :
    unescape? (front ++ s) = (unescape? s).map (front ++ ·) := by
  induction front with
  | nil => simp
  | cons c front ih =>
      have mark : c ≠ '&' := by
        rintro rfl
        simpa [isMarkupBlank] using blank _ List.mem_cons_self
      have rest := ih fun c hc => blank c (List.mem_cons_of_mem _ hc)
      rw [List.cons_append, unescape?, unescapeFrom]
      simp only [if_neg mark]
      rw [unescapeFrom_done, ← unescape?, rest, Option.map_map]
      congr 1

/-- Trimming before reading takes the same blanks off the text that is read. -/
theorem unescape?_trimBy {raw text : List Char} (h : unescape? raw = some text) :
    ∃ front back trimmed, raw = front ++ (Text.trimBy isMarkupBlank raw ++ back) ∧
      unescape? (Text.trimBy isMarkupBlank raw) = some trimmed ∧
      text = front ++ (trimmed ++ back) ∧ (∀ c ∈ front, isMarkupBlank c = true) ∧
      ∀ c ∈ back, isMarkupBlank c = true := by
  obtain ⟨front, back, split, blankFront, blankBack⟩ := Text.trimBy_split isMarkupBlank raw
  rw [split, unescape?_blanks_append blankFront] at h
  obtain ⟨rest, read, rfl⟩ := Option.map_eq_some_iff.1 h
  rw [unescape?, unescapeFrom_append_blanks blankBack] at read
  obtain ⟨trimmed, inner, rfl⟩ := Option.map_eq_some_iff.1 read
  exact ⟨front, back, trimmed, split, inner, rfl, blankFront, blankBack⟩

end Xml

end SuiteMetrics
