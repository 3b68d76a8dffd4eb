import Mathlib.Data.List.DropRight
import SuiteMetrics.Proofs.SettledJson

/-!
JSON as it is written.

How a document may be written: blanks between all its parts, and in strings any character by an
escape (`Spelled`). The reader takes every such text, whatever follows it (`Spelled.read`).
-/

namespace SuiteMetrics.Json

open Text (Blanks dropWhile_blanks isMarkupBlank)

/-! ### Strings -/

/-- How the characters of a string may be written: as they are, save for quotes, backslashes and
control characters, or by an escape of one letter, of one unit, or of a pair of units. -/
inductive SpelledChars : List Char → List Char → Prop where
  | nil : SpelledChars [] []
  | plain {c : Char} {written text : List Char} : c ≠ '"' → c ≠ '\\' → ¬ c.toNat < 0x20 →
      SpelledChars written text → SpelledChars (c :: written) (c :: text)
  | escape {letter c : Char} {written text : List Char} : escaped? letter = some c →
      SpelledChars written text → SpelledChars ('\\' :: letter :: written) (c :: text)
  | unit {a b c d : Char} {unit : Nat} {written text : List Char} : unit? a b c d = some unit →
      isHighSurrogate unit = false → isLowSurrogate unit = false → SpelledChars written text →
      SpelledChars ('\\' :: 'u' :: a :: b :: c :: d :: written) (Char.ofNat unit :: text)
  | pair {a b c d e f g h : Char} {high low : Nat} {written text : List Char} :
      unit? a b c d = some high → unit? e f g h = some low → isHighSurrogate high = true →
      isLowSurrogate low = true → SpelledChars written text →
      SpelledChars
        ('\\' :: 'u' :: a :: b :: c :: d :: '\\' :: 'u' :: e :: f :: g :: h :: written)
        (Char.ofNat (0x10000 + (high - 0xD800) * 0x400 + (low - 0xDC00)) :: text)

/-- A text in quotes. -/
def quoted (written : List Char) : List Char := '"' :: (written ++ ['"'])

theorem SpelledChars.readChars {written text : List Char} (h : SpelledChars written text)
    (before more : List Char) :
    Json.readChars (some before) (written ++ '"' :: more) =
      some (some (before.reverse ++ text), more) := by
  induction h generalizing before with
  | nil => simp [Json.readChars]
  | plain quote escape control _ ih =>
      rw [List.cons_append, readChars_plain quote escape control]
      simpa [extend] using ih (_ :: before)
  | escape known _ ih =>
      rw [List.cons_append, List.cons_append, readChars_escape known]
      simpa [extend] using ih (_ :: before)
  | unit units high low _ ih =>
      simp only [List.cons_append]
      rw [readChars_unit units high low]
      simpa [extend] using ih (_ :: before)
  | pair first second isHigh isLow _ ih =>
      simp only [List.cons_append]
      rw [readChars_pair first second isHigh isLow]
      simpa [extend] using ih (_ :: before)

theorem SpelledChars.readString {written text : List Char} (h : SpelledChars written text)
    (more : List Char) :
    Json.readString (written ++ '"' :: more) = some (some (String.ofList text), more) := by
  rw [Json.readString, h.readChars [] more]
  rfl

/-! ### Values -/

/-- What a text writes: a value, or the items or fields of an array or object up to the closing
bracket. -/
inductive Piece where
  | value (d : Document)
  | items (ds : List Document)
  | fields (fs : List (Option String × Document))

/-- How a document may be written. -/
inductive Spelled : Piece → List Char → Prop where
  | null (b : Blanks) : Spelled (.value .null) (b ++ "null".toList)
  | isTrue (b : Blanks) : Spelled (.value (.bool true)) (b ++ "true".toList)
  | isFalse (b : Blanks) : Spelled (.value (.bool false)) (b ++ "false".toList)
  | number (b : Blanks) {n : Literal} {written : List Char} :
      readNumber written = some (n, []) → Spelled (.value (.number n)) (b ++ written)
  | string (b : Blanks) {written text : List Char} : SpelledChars written text →
      Spelled (.value (.string (String.ofList text))) (b ++ quoted written)
  | emptyArray (b inner : Blanks) : Spelled (.value (.array [])) (b ++ '[' :: (inner ++ [']']))
  | array (b : Blanks) {ds : List Document} {written : List Char} : Spelled (.items ds) written →
      Spelled (.value (.array ds)) (b ++ '[' :: written)
  | emptyObject (b inner : Blanks) :
      Spelled (.value (.object [])) (b ++ '\x7b' :: (inner ++ ['\x7d']))
  | object (b : Blanks) {fs : List (Option String × Document)} {written : List Char} :
      Spelled (.fields fs) written → Spelled (.value (.object fs)) (b ++ '\x7b' :: written)
  | lastItem (b : Blanks) {d : Document} {written : List Char} : Spelled (.value d) written →
      Spelled (.items [d]) (written ++ (b ++ [']']))
  | item (b : Blanks) {d : Document} {ds : List Document} {written others : List Char} :
      Spelled (.value d) written → Spelled (.items ds) others →
      Spelled (.items (d :: ds)) (written ++ (b ++ ',' :: others))
  | lastField (b colon after : Blanks) {key written value : List Char} {d : Document} :
      SpelledChars written key → Spelled (.value d) value →
      Spelled (.fields [(some (String.ofList key), d)])
        (b ++ quoted written ++ (colon ++ ':' :: (value ++ (after ++ ['\x7d']))))
  | field (b colon after : Blanks) {key written value others : List Char} {d : Document}
      {fs : List (Option String × Document)} : SpelledChars written key →
      Spelled (.value d) value → Spelled (.fields fs) others →
      Spelled (.fields ((some (String.ofList key), d) :: fs))
        (b ++ quoted written ++ (colon ++ ':' :: (value ++ (after ++ ',' :: others))))

/-! ### Steps over blanks -/

theorem skipBlanks_blanks (b : Blanks) {c : Char} (hc : isMarkupBlank c = false) (r : List Char) :
    skipBlanks (b.1 ++ c :: r) = c :: r := dropWhile_blanks b hc r

theorem skipBlanks_skipBlanks (s : List Char) : skipBlanks (skipBlanks s) = skipBlanks s :=
  List.dropWhile_idempotent _ _

theorem readValue_skipBlanks (fuel : Nat) (s : List Char) :
    readValue fuel (skipBlanks s) = readValue fuel s := by
  cases fuel with
  | zero => rfl
  | succ fuel => rw [readValue_succ, readValue_succ, skipBlanks_skipBlanks]

theorem readItems_skipBlanks (fuel : Nat) (s : List Char) :
    readItems fuel (skipBlanks s) = readItems fuel s := by
  cases fuel with
  | zero => rfl
  | succ fuel => rw [readItems_succ, readItems_succ, readValue_skipBlanks]

theorem readFields_skipBlanks (fuel : Nat) (s : List Char) :
    readFields fuel (skipBlanks s) = readFields fuel s := by
  cases fuel with
  | zero => rfl
  | succ fuel => rw [readFields_succ, readFields_succ, readField, readField, skipBlanks_skipBlanks]

theorem continuesNumber_of_isMarkupBlank {c : Char} (blank : isMarkupBlank c = true) :
    continuesNumber c = false := by
  simp only [isMarkupBlank, Bool.or_eq_true, beq_iff_eq, or_assoc] at blank
  obtain rfl | rfl | rfl | rfl := blank <;> rfl

theorem ends_blanks (b : Blanks) {c : Char} (hc : continuesNumber c = false) (r : List Char) :
    Ends [] (b.1 ++ c :: r) := by
  refine .inr fun d hd => ?_
  cases blanks : b.1 with
  | nil =>
      obtain rfl : c = d := by simpa [blanks] using hd
      exact hc
  | cons e es =>
      obtain rfl : e = d := by simpa [blanks] using hd
      exact continuesNumber_of_isMarkupBlank (b.2 e (by simp [blanks]))

theorem number_begins {s : List Char} {p : Literal × List Char} (h : readNumber s = some p) :
    ∃ c s', s = c :: s' ∧ (c = '-' ∨ Decimal.isDigit c = true) := by
  cases s with
  | nil => simp [readNumber, Decimal.spanDigits] at h
  | cons c s =>
      refine ⟨c, s, rfl, ?_⟩
      by_cases minus : c = '-'
      · exact .inl minus
      · rw [readNumber_unsigned minus, readUnsigned] at h
        by_contra neither
        have none_ : (c :: s).takeWhile Decimal.isDigit = [] := by simp_all
        simp [Decimal.spanDigits, List.span_eq_takeWhile_dropWhile, none_] at h

theorem begins_of_digit {c : Char} (h : c = '-' ∨ Decimal.isDigit c = true) :
    isMarkupBlank c = false ∧ beginsNumber c = true := by
  constructor
  · by_contra blank
    simp only [isMarkupBlank, Bool.not_eq_false, Bool.or_eq_true, beq_iff_eq, or_assoc] at blank
    obtain rfl | rfl | rfl | rfl := blank <;> simp [Decimal.isDigit] at h
  · by_contra other
    simp only [beginsNumber, decide_eq_true_eq, not_not, List.mem_cons, List.not_mem_nil,
      or_false] at other
    obtain rfl | rfl | rfl | rfl | rfl | rfl := other <;> simp [Decimal.isDigit] at h

section Elements

variable {α : Type} {close : Char} {later : List Char → Option (List α × List Char)}

theorem readOpened_close (b : Blanks) (hc : isMarkupBlank close = false) (more : List Char) :
    readOpened close later (b.1 ++ close :: more) = some ([], more) := by
  rw [readOpened, skipBlanks_blanks b hc]
  simp

/-- Elements are read behind an opening bracket, for the closing bracket begins none. -/
theorem readOpened_elements {s : List Char} {p : List α × List Char}
    (skips : later (skipBlanks s) = later s)
    (noClose : ∀ r, skipBlanks s = close :: r → later s = none) (found : later s = some p) :
    readOpened close later s = some p := by
  unfold readOpened
  cases front : skipBlanks s with
  | nil =>
      rw [front] at skips
      simpa [skips] using found
  | cons c r =>
      dsimp only
      split
      · rename_i closes
        rw [noClose r (closes ▸ front)] at found
        simp at found
      · rw [← front, skips, found]

theorem readRest_comma (b : Blanks) (first : α) (s : List Char) :
    readRest close later first (b.1 ++ ',' :: s) =
      (later s).map fun (others, r) => (first :: others, r) := by
  rw [readRest, skipBlanks_blanks b rfl]
  simp

theorem readRest_close (b : Blanks) (hc : isMarkupBlank close = false) (comma : close ≠ ',')
    (first : α) (more : List Char) :
    readRest close later first (b.1 ++ close :: more) = some ([first], more) := by
  rw [readRest, skipBlanks_blanks b hc]
  simp [comma]

end Elements

theorem readItems_noClose {fuel : Nat} {s r : List Char} (front : skipBlanks s = ']' :: r) :
    readItems fuel s = none := by
  have noNumber : readNumber (']' :: r) = none := by
    by_contra some_
    obtain ⟨p, number⟩ := Option.ne_none_iff_exists'.1 some_
    obtain ⟨c, s', same, begins⟩ := number_begins number
    obtain ⟨rfl, -⟩ := List.cons.inj same
    simp [Decimal.isDigit] at begins
  cases fuel with
  | zero => rfl
  | succ fuel =>
      cases fuel with
      | zero => rfl
      | succ fuel =>
          rw [readItems_succ, readValue_number front rfl, noNumber]
          rfl

theorem readFields_noClose {fuel : Nat} {s r : List Char} (front : skipBlanks s = '\x7d' :: r) :
    readFields fuel s = none := by
  cases fuel with
  | zero => rfl
  | succ fuel => simp [readFields_succ, readField, front]

/-! ### Reading what is written -/

/-- The reader takes a text as a piece, whatever follows; a number has to end there. -/
def Piece.Read : Piece → List Char → Prop
  | .value d, written => ∀ fuel, 2 * written.length < fuel → ∀ more, Ends [] more →
      readValue fuel (written ++ more) = some (d, more)
  | .items ds, written => ∀ fuel, 2 * written.length + 1 < fuel → ∀ more,
      readItems fuel (written ++ more) = some (ds, more)
  | .fields fs, written => ∀ fuel, 2 * written.length + 1 < fuel → ∀ more,
      readFields fuel (written ++ more) = some (fs, more)

theorem readWord_append (word : String) (d : Document) (more : List Char) :
    readWord word d (word.toList ++ more) = some (d, more) := by
  have here : word.toList.isPrefixOf (word.toList ++ more) = true := by
    rw [List.isPrefixOf_iff_prefix]
    exact List.prefix_append _ _
  rw [readWord, if_pos here, ← String.length_toList, List.drop_left]

theorem readField_written {key written : List Char} (b colon : Blanks)
    (spelled : SpelledChars written key) {fuel : Nat} {s r : List Char} {d : Document}
    (read : readValue fuel s = some (d, r)) :
    readField fuel (b ++ quoted written ++ (colon ++ ':' :: s)) =
      some ((some (String.ofList key), d), r) := by
  have front := skipBlanks_blanks b (c := '"') rfl (written ++ '"' :: (colon ++ ':' :: s))
  have next := skipBlanks_blanks colon (c := ':') rfl s
  simp only [quoted, List.append_assoc, List.cons_append, List.nil_append]
  simp only [readField, front, spelled.readString, Option.bind_some, next, read, Option.map_some]

/-- Blanks in front of a value change nothing, and the character behind them pays for a step. -/
theorem Piece.read_value {d : Document} (b : Blanks) {c : Char} (hc : isMarkupBlank c = false)
    {s : List Char} (found : ∀ fuel, 2 * s.length + 1 < fuel → ∀ more, Ends [] more →
      readValue (fuel + 1) (c :: (s ++ more)) = some (d, more)) :
    Piece.Read (.value d) (b ++ c :: s) := by
  intro fuel enough more ends
  obtain ⟨fuel, rfl⟩ := Nat.exists_eq_add_one_of_ne_zero (Nat.ne_zero_of_lt enough)
  rw [List.length_append, List.length_cons] at enough
  rw [List.append_assoc, List.cons_append, ← readValue_skipBlanks, skipBlanks_blanks b hc]
  exact found fuel (by omega) more ends

theorem Piece.read_word (word : String) {d : Document} (b : Blanks) {c : Char} {s : List Char}
    (spells : word.toList = c :: s) (hc : isMarkupBlank c = false)
    (begins : ∀ fuel r, readValue (fuel + 1) (c :: r) = readWord word d (c :: r)) :
    Piece.Read (.value d) (b ++ word.toList) := by
  rw [spells]
  refine read_value b hc fun fuel _ more _ => ?_
  rw [begins, ← List.cons_append, ← spells]
  exact readWord_append word d more

/-- An item is read up to the blanks and the mark behind it. -/
theorem Piece.Read.items_succ {d : Document} {written : List Char}
    (h : Piece.Read (.value d) written) (b : Blanks) {c : Char} (hc : continuesNumber c = false)
    (r : List Char) {fuel : Nat} (enough : 2 * written.length < fuel) :
    readItems (fuel + 1) (written ++ (b ++ c :: r)) =
      readRest ']' (readItems fuel) d (b ++ c :: r) := by
  rw [readItems_succ, h fuel enough _ (ends_blanks b hc r), Option.bind_some]

/-- A field is read up to the blanks and the mark behind its value. -/
theorem Piece.Read.fields_succ {d : Document} {key name value : List Char}
    (h : Piece.Read (.value d) value) (b colon after : Blanks) (spelled : SpelledChars name key)
    {c : Char} (hc : continuesNumber c = false) (r : List Char) {fuel : Nat}
    (enough : 2 * value.length < fuel) :
    readFields (fuel + 1)
        (b ++ (quoted name ++ (colon ++ ':' :: (value ++ (after ++ c :: r))))) =
      readRest '\x7d' (readFields fuel) (some (String.ofList key), d) (after ++ c :: r) := by
  rw [readFields_succ, ← List.append_assoc,
    readField_written b colon spelled (h fuel enough _ (ends_blanks after hc r)), Option.bind_some]

/-- The reader takes every text that writes a document. -/
theorem Spelled.read {piece : Piece} {written : List Char} (h : Spelled piece written) :
    piece.Read written := by
  induction h with
  | null b => exact Piece.read_word "null" b rfl rfl fun _ _ => readValue_null rfl
  | isTrue b => exact Piece.read_word "true" b rfl rfl fun _ _ => readValue_true rfl
  | isFalse b => exact Piece.read_word "false" b rfl rfl fun _ _ => readValue_false rfl
  | number b found =>
      obtain ⟨c, s, rfl, begins⟩ := number_begins found
      obtain ⟨plain, number⟩ := begins_of_digit begins
      refine Piece.read_value b plain fun fuel _ more ends => ?_
      rw [readValue_number (List.dropWhile_cons_of_neg (by simp [plain])) number,
        ← List.cons_append, readNumber_append found ends]
      rfl
  | string b spelled =>
      refine Piece.read_value b rfl fun fuel _ more _ => ?_
      rw [readValue_string rfl, List.append_assoc, List.singleton_append, spelled.readString]
      rfl
  | emptyArray b inner =>
      refine Piece.read_value b rfl fun fuel _ more _ => ?_
      rw [readValue_array rfl, List.append_assoc, List.singleton_append,
        readOpened_close inner rfl]
      rfl
  | array b _ ih =>
      refine Piece.read_value b rfl fun fuel enough more _ => ?_
      have elements := readOpened_elements (readItems_skipBlanks _ _) (fun _ => readItems_noClose)
        (ih fuel enough more)
      rw [readValue_array rfl, elements]
      rfl
  | emptyObject b inner =>
      refine Piece.read_value b rfl fun fuel _ more _ => ?_
      rw [readValue_object rfl, List.append_assoc, List.singleton_append,
        readOpened_close inner rfl]
      rfl
  | object b _ ih =>
      refine Piece.read_value b rfl fun fuel enough more _ => ?_
      have elements := readOpened_elements (readFields_skipBlanks _ _)
        (fun _ => readFields_noClose) (ih fuel enough more)
      rw [readValue_object rfl, elements]
      rfl
  | lastItem b _ ih =>
      intro fuel enough more
      obtain ⟨fuel, rfl⟩ := Nat.exists_eq_add_one_of_ne_zero (Nat.ne_zero_of_lt enough)
      simp only [List.append_assoc, List.singleton_append, List.length_append] at enough ⊢
      rw [ih.items_succ b rfl more (by omega)]
      exact readRest_close b rfl (by decide) _ _
  | item b _ _ ih ih' =>
      intro fuel enough more
      obtain ⟨fuel, rfl⟩ := Nat.exists_eq_add_one_of_ne_zero (Nat.ne_zero_of_lt enough)
      simp only [List.append_assoc, List.cons_append, List.length_append, List.length_cons]
        at enough ⊢
      rw [ih.items_succ b rfl _ (by omega), readRest_comma, ih' fuel (by omega) more]
      rfl
  | lastField b colon after key _ ih =>
      intro fuel enough more
      obtain ⟨fuel, rfl⟩ := Nat.exists_eq_add_one_of_ne_zero (Nat.ne_zero_of_lt enough)
      simp only [List.append_assoc, List.cons_append, List.nil_append, List.length_append,
        List.length_cons] at enough ⊢
      rw [ih.fields_succ b colon after key rfl more (by omega)]
      exact readRest_close after rfl (by decide) _ _
  | field b colon after key _ _ ih ih' =>
      intro fuel enough more
      obtain ⟨fuel, rfl⟩ := Nat.exists_eq_add_one_of_ne_zero (Nat.ne_zero_of_lt enough)
      simp only [List.append_assoc, List.cons_append, List.length_append, List.length_cons]
        at enough ⊢
      rw [ih.fields_succ b colon after key rfl _ (by omega), readRest_comma,
        ih' fuel (by omega) more]
      rfl

/-- A whole text may have blanks behind the document that it writes. -/
theorem ofText?_of_spelled {d : Document} {written : List Char} (h : Spelled (.value d) written)
    (after : Blanks) : Document.ofText? (written ++ after) = some d := by
  have ends : Ends [] after.1 := .inr fun c hc =>
    continuesNumber_of_isMarkupBlank (after.2 c (List.mem_of_mem_head? hc))
  have enough : 2 * written.length < 2 * (written ++ after.1).length + 2 := by
    rw [List.length_append]
    omega
  have blank : skipBlanks after.1 = [] := List.dropWhile_eq_nil_iff.2 after.2
  simp only [Document.ofText?, h.read _ enough after.1 ends, blank, List.isEmpty_nil, if_true]

end SuiteMetrics.Json
