import Mathlib.Tactic.Push
import SuiteMetrics.Json.Document

/-!
The steps of the reader of JSON.

What `readChars` does with each way of writing a character, and what `readValue` does with each
kind of value, as equations. Arrays and objects go through the same two steps: an opening bracket
with nothing or something behind it (`readOpened`), and an element with a comma or the closing
bracket behind it (`readRest`).
-/

namespace SuiteMetrics.Json

/-! ### Characters of a string -/

section Strings

attribute [local simp] readChars

variable {read : Option (List Char)} {a b c d e f g h : Char} {r : List Char}

theorem readChars_plain (quote : c ≠ '"') (escape : c ≠ '\\') (control : ¬ c.toNat < 0x20) :
    readChars read (c :: r) = readChars (extend read c) r := by
  rw [readChars, if_neg control]
  · exact quote
  all_goals intros; contradiction

theorem readChars_escape {replaced : Char} (known : escaped? c = some replaced) :
    readChars read ('\\' :: c :: r) = readChars (extend read replaced) r := by
  have unit : c ≠ 'u' := by
    rintro rfl
    simp [escaped?] at known
  rw [readChars, known]
  all_goals intros; contradiction

theorem readChars_pair {high low : Nat} (first : unit? a b c d = some high)
    (second : unit? e f g h = some low) (isHigh : isHighSurrogate high = true)
    (isLow : isLowSurrogate low = true) :
    readChars read ('\\' :: 'u' :: a :: b :: c :: d :: '\\' :: 'u' :: e :: f :: g :: h :: r) =
      readChars
        (extend read (Char.ofNat (0x10000 + (high - 0xD800) * 0x400 + (low - 0xDC00)))) r := by
  rw [readChars, first, second]
  simp [isHigh, isLow]

theorem readChars_single {unit : Nat} (units : unit? a b c d = some unit)
    (alone : ∀ e f g h s, r = '\\' :: 'u' :: e :: f :: g :: h :: s → False) :
    readChars read ('\\' :: 'u' :: a :: b :: c :: d :: r) =
      if isHighSurrogate unit || isLowSurrogate unit then readChars none r
      else readChars (extend read (Char.ofNat unit)) r := by
  rw [readChars, units]
  exact alone

theorem readChars_noUnit (units : unit? a b c d = none) :
    readChars read ('\\' :: 'u' :: a :: b :: c :: d :: r) = none := by
  by_cases alone : ∀ e f g h s, r = '\\' :: 'u' :: e :: f :: g :: h :: s → False
  · rw [readChars, units]
    exact alone
  · push Not at alone
    obtain ⟨e, f, g, h, s, rfl, -⟩ := alone
    rw [readChars, units]

/-- A unit that is no half of a pair is read by itself. -/
theorem readChars_unit {unit : Nat} (units : unit? a b c d = some unit)
    (high : isHighSurrogate unit = false) (low : isLowSurrogate unit = false) :
    readChars read ('\\' :: 'u' :: a :: b :: c :: d :: r) =
      readChars (extend read (Char.ofNat unit)) r := by
  by_cases alone : ∀ e f g h s, r = '\\' :: 'u' :: e :: f :: g :: h :: s → False
  · rw [readChars_single units alone, high, low]
    rfl
  · push Not at alone
    obtain ⟨e, f, g, h, s, rfl, -⟩ := alone
    cases next : unit? e f g h with
    | none =>
        rw [readChars_noUnit next, readChars, units, next]
    | some second =>
        rw [readChars, units, next]
        simp [high, low]

end Strings

/-! ### Elements of arrays and objects -/

section Elements

variable {α : Type} (close : Char) (later : List Char → Option (List α × List Char))

/-- What follows an opening bracket: the closing bracket, or elements. -/
def readOpened (s : List Char) : Option (List α × List Char) :=
  match skipBlanks s with
  | [] => later []
  | c :: r => if c = close then some ([], r) else later (c :: r)

/-- What follows an element: a comma and more elements, or the closing bracket. -/
def readRest (first : α) (s : List Char) : Option (List α × List Char) :=
  match skipBlanks s with
  | [] => none
  | c :: r =>
    if c = ',' then (later r).map fun (others, r) => (first :: others, r)
    else if c = close then some ([first], r)
    else none

end Elements

/-- One field of an object: a key, a colon and a value. -/
def readField (fuel : Nat) (s : List Char) : Option ((Option String × Document) × List Char) :=
  match skipBlanks s with
  | '"' :: r =>
    (readString r).bind fun (key, r) =>
      match skipBlanks r with
      | ':' :: r => (readValue fuel r).map fun (value, r) => ((key, value), r)
      | _ => none
  | _ => none

theorem readItems_zero (s : List Char) : readItems 0 s = none := rfl

theorem readItems_succ (fuel : Nat) (s : List Char) :
    readItems (fuel + 1) s =
      (readValue fuel s).bind fun (item, r) => readRest ']' (readItems fuel) item r := by
  rw [readItems]
  cases readValue fuel s with
  | none => rfl
  | some p =>
      obtain ⟨item, r⟩ := p
      simp only [Option.bind_some, readRest]
      cases skipBlanks r with
      | nil => rfl
      | cons c r =>
          by_cases comma : c = ','
          · subst comma
            rfl
          · by_cases closes : c = ']'
            · subst closes
              rfl
            · simp [comma, closes]

theorem readFields_zero (s : List Char) : readFields 0 s = none := rfl

theorem readFields_succ (fuel : Nat) (s : List Char) :
    readFields (fuel + 1) s =
      (readField fuel s).bind fun (field, r) => readRest '\x7d' (readFields fuel) field r := by
  rw [readFields, readField]
  cases skipBlanks s with
  | nil => rfl
  | cons c r =>
      by_cases quote : c = '"'
      · subst quote
        simp only []
        cases readString r with
        | none => rfl
        | some p =>
            obtain ⟨key, r⟩ := p
            simp only [Option.bind_some]
            cases skipBlanks r with
            | nil => rfl
            | cons d r =>
                by_cases colon : d = ':'
                · subst colon
                  simp only []
                  cases readValue fuel r with
                  | none => rfl
                  | some p =>
                      obtain ⟨value, r⟩ := p
                      simp only [Option.map_some, Option.bind_some, readRest]
                      cases skipBlanks r with
                      | nil => rfl
                      | cons e r =>
                          by_cases comma : e = ','
                          · subst comma
                            rfl
                          · by_cases closes : e = '\x7d'
                            · subst closes
                              rfl
                            · simp [comma, closes]
                · simp [colon]
      · simp [quote]

/-! ### Values -/

section Values

variable {fuel : Nat} {s r : List Char} {c : Char}

theorem readValue_zero (s : List Char) : readValue 0 s = none := rfl

theorem readValue_succ (fuel : Nat) (s : List Char) :
    readValue (fuel + 1) s =
      match skipBlanks s with
      | '"' :: r => (readString r).map fun (text, r) => (.string text, r)
      | '[' :: r => (readOpened ']' (readItems fuel) r).map fun (items, r) => (.array items, r)
      | '\x7b' :: r =>
        (readOpened '\x7d' (readFields fuel) r).map fun (fields, r) => (.object fields, r)
      | 'n' :: r => readWord "null" .null ('n' :: r)
      | 't' :: r => readWord "true" (.bool true) ('t' :: r)
      | 'f' :: r => readWord "false" (.bool false) ('f' :: r)
      | r => (readNumber r).map fun (n, r) => (.number n, r) := by
  rw [readValue]
  generalize skipBlanks s = front
  split
  case h_2 r =>
      change _ = (readOpened ']' (readItems fuel) r).map _
      rw [readOpened]
      cases skipBlanks r with
      | nil => rfl
      | cons c r =>
          by_cases closes : c = ']'
          · subst closes
            rfl
          · simp [closes]
  case h_3 r =>
      change _ = (readOpened '\x7d' (readFields fuel) r).map _
      rw [readOpened]
      cases skipBlanks r with
      | nil => rfl
      | cons c r =>
          by_cases closes : c = '\x7d'
          · subst closes
            rfl
          · simp [closes]
  all_goals simp_all

theorem readValue_string (front : skipBlanks s = '"' :: r) :
    readValue (fuel + 1) s = (readString r).map fun (text, r) => (.string text, r) := by
  rw [readValue_succ, front]
  rfl

theorem readValue_array (front : skipBlanks s = '[' :: r) :
    readValue (fuel + 1) s =
      (readOpened ']' (readItems fuel) r).map fun (items, r) => (.array items, r) := by
  rw [readValue_succ, front]
  rfl

theorem readValue_object (front : skipBlanks s = '\x7b' :: r) :
    readValue (fuel + 1) s =
      (readOpened '\x7d' (readFields fuel) r).map fun (fields, r) => (.object fields, r) := by
  rw [readValue_succ, front]
  rfl

theorem readValue_null (front : skipBlanks s = 'n' :: r) :
    readValue (fuel + 1) s = readWord "null" .null ('n' :: r) := by
  rw [readValue_succ, front]
  rfl

theorem readValue_true (front : skipBlanks s = 't' :: r) :
    readValue (fuel + 1) s = readWord "true" (.bool true) ('t' :: r) := by
  rw [readValue_succ, front]
  rfl

theorem readValue_false (front : skipBlanks s = 'f' :: r) :
    readValue (fuel + 1) s = readWord "false" (.bool false) ('f' :: r) := by
  rw [readValue_succ, front]
  rfl

/-- Whether no other value than a number begins with a character. -/
def beginsNumber (c : Char) : Bool := c ∉ ['"', '[', '\x7b', 'n', 't', 'f']

theorem value_begins (c : Char) :
    c = '"' ∨ c = '[' ∨ c = '\x7b' ∨ c = 'n' ∨ c = 't' ∨ c = 'f' ∨ beginsNumber c = true := by
  by_cases listed : c ∈ ['"', '[', '\x7b', 'n', 't', 'f']
  · simp only [List.mem_cons, List.not_mem_nil, or_false] at listed
    obtain h | h | h | h | h | h := listed <;> simp [h]
  · simp only [beginsNumber, listed, not_false_eq_true, decide_true, or_true]

theorem readValue_number (front : skipBlanks s = c :: r) (number : beginsNumber c = true) :
    readValue (fuel + 1) s = (readNumber (c :: r)).map fun (n, r) => (.number n, r) := by
  simp [beginsNumber] at number
  simp [readValue_succ, front, number]

theorem readValue_blank (blank : skipBlanks s = []) : readValue fuel s = none := by
  cases fuel with
  | zero => exact readValue_zero s
  | succ fuel =>
      rw [readValue_succ, blank]
      rfl

theorem readItems_blank (blank : skipBlanks s = []) : readItems fuel s = none := by
  cases fuel with
  | zero => exact readItems_zero s
  | succ fuel => rw [readItems_succ, readValue_blank blank, Option.bind_none]

theorem readFields_blank (blank : skipBlanks s = []) : readFields fuel s = none := by
  cases fuel with
  | zero => exact readFields_zero s
  | succ fuel => simp only [readFields_succ, readField, blank, Option.bind_none]

end Values

end SuiteMetrics.Json
