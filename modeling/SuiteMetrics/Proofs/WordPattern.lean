import Mathlib.Data.List.Infix
import SuiteMetrics.Files.Glob
import SuiteMetrics.Files.Path

/-!
The pattern of a word.

Two stars and a slash, a star, a word and another star match a path exactly when the word stands
somewhere in it (`accepts_wordPattern_iff`): a star passes slashes unless it is told not to. The
word may stand in the name of a file, in that of a directory on the way to it, or in that of any
directory above these. A word without slashes stands on one side of each slash
(`infix_append_cons_iff`).
-/

namespace SuiteMetrics.Files

open Text.Utf8 (Bytes)

/-- The parts of the pattern of a word. -/
def wordParts (word : List Char) : List GlobPart :=
  [.directoriesBefore, .many] ++ word.map .literal ++ [.many]

/-- The bytes of a word. -/
def wordBytes (word : List Char) : Bytes := word.flatMap bytesOf

/-! ### Matching parts -/

theorem manyThen_iff {rest : Bytes → Bool} {s : Bytes} :
    manyThen (fun _ => true) rest s ↔ ∃ back, back <:+ s ∧ rest back := by
  induction s with
  | nil =>
      rw [manyThen]
      constructor
      · intro h
        exact ⟨[], List.suffix_refl [], h⟩
      · rintro ⟨back, h, accepted⟩
        rwa [List.suffix_nil.mp h] at accepted
  | cons b s ih =>
      rw [manyThen, Bool.true_and, Bool.or_eq_true, ih]
      constructor
      · rintro (h | ⟨back, h, accepted⟩)
        · exact ⟨b :: s, List.suffix_refl _, h⟩
        · exact ⟨back, h.trans (List.suffix_cons b s), accepted⟩
      · rintro ⟨back, h, accepted⟩
        rcases List.suffix_cons_iff.mp h with rfl | h
        · exact .inl accepted
        · exact .inr ⟨back, h, accepted⟩

theorem slashThen_iff {rest : Bytes → Bool} {s : Bytes} :
    slashThen rest s ↔ ∃ back, s = slash :: back ∧ rest back := by
  cases s with
  | nil => simp [slashThen]
  | cons b s => simp [slashThen, and_assoc]

/-- Literal characters match their bytes. -/
theorem acceptsAll_literals {free : UInt8 → Bool} {more : List GlobPart} {rest : Bytes → Bool}
    (word : List Char) {s : Bytes} :
    acceptsAll free (word.map .literal ++ more) rest s ↔
      ∃ back, s = wordBytes word ++ back ∧ acceptsAll free more rest back := by
  induction word generalizing s with
  | nil => simp [wordBytes]
  | cons c word ih =>
      rw [List.map_cons, List.cons_append, acceptsAll, GlobPart.accepts]
      simp only [Bool.and_eq_true, List.isPrefixOf_iff_prefix, ih, wordBytes, List.flatMap_cons]
      constructor
      · rintro ⟨⟨back, rfl⟩, further, same, accepted⟩
        rw [List.drop_left] at same
        exact ⟨further, by rw [same, List.append_assoc], accepted⟩
      · rintro ⟨back, rfl, accepted⟩
        rw [List.append_assoc]
        exact ⟨List.prefix_append _ _, back, List.drop_left, accepted⟩

/-- A star, a word and a star match what contains the word. -/
theorem acceptsAll_stars_iff (word : List Char) (s : Bytes) :
    acceptsAll (fun _ => true) (.many :: (word.map .literal ++ [.many])) List.isEmpty s ↔
      wordBytes word <:+: s := by
  have tail (s : Bytes) : acceptsAll (fun _ => true) [.many] List.isEmpty s :=
    manyThen_iff.mpr ⟨[], List.nil_suffix, rfl⟩
  rw [acceptsAll, GlobPart.accepts, manyThen_iff]
  constructor
  · rintro ⟨back, ⟨front, rfl⟩, accepted⟩
    obtain ⟨further, rfl, -⟩ := (acceptsAll_literals word).mp accepted
    exact ⟨front, further, List.append_assoc ..⟩
  · rintro ⟨front, further, rfl⟩
    rw [List.append_assoc]
    exact ⟨wordBytes word ++ further, List.suffix_append front _,
      (acceptsAll_literals word).mpr ⟨further, rfl, tail further⟩⟩

/-- The pattern of a word matches the paths that contain the word. -/
theorem accepts_wordPattern_iff (word : List Char) (path : Bytes) :
    Glob.accepts ⟨wordParts word, false⟩ path ↔ wordBytes word <:+: path := by
  have parts : Glob.accepts ⟨wordParts word, false⟩ path =
      GlobPart.accepts (fun _ => true) .directoriesBefore (acceptsAll (fun _ => true)
        (.many :: (word.map .literal ++ [.many])) List.isEmpty) path := rfl
  rw [parts, GlobPart.accepts, Bool.or_eq_true, Bool.or_eq_true, acceptsAll_stars_iff,
    slashThen_iff, manyThen_iff]
  constructor
  · rintro ((contained | ⟨back, rfl, accepted⟩) | ⟨back, suffix, accepted⟩)
    · exact contained
    · have contained := (acceptsAll_stars_iff word back).mp accepted
      exact contained.trans (List.suffix_cons slash back).isInfix
    · obtain ⟨further, rfl, accepted⟩ := slashThen_iff.mp accepted
      have contained := (acceptsAll_stars_iff word further).mp accepted
      exact contained.trans ((List.suffix_cons slash further).trans suffix).isInfix
  · exact fun contained => .inl (.inl contained)

/-- What has no separator in it stands before a separator or after it. -/
theorem infix_append_cons_iff {α : Type} {word before after : List α} {separator : α}
    (apart : separator ∉ word) :
    word <:+: before ++ separator :: after ↔ word <:+: before ∨ word <:+: after := by
  constructor
  · intro contained
    rcases List.infix_append_iff.mp contained with left | right | ⟨front, back, rfl, suffix, first⟩
    · exact .inl left
    · rcases List.infix_cons_iff.mp right with first | right
      · rcases List.prefix_cons_iff.mp first with rfl | ⟨rest, rfl, -⟩
        · exact .inl List.nil_infix
        · exact absurd List.mem_cons_self apart
      · exact .inr right
    · rcases List.prefix_cons_iff.mp first with rfl | ⟨rest, rfl, -⟩
      · exact .inl ((List.append_nil front).symm ▸ suffix.isInfix)
      · exact absurd (List.mem_append_right front List.mem_cons_self) apart
  · rintro (left | right)
    · exact left.trans List.infix_append_left
    · exact (right.trans (List.suffix_cons separator after).isInfix).trans List.infix_append_right

/-! ### Words in paths -/

theorem toList_loop_eq (bytes : ByteArray) (i : Nat) (r : Bytes) :
    ByteArray.toList.loop bytes i r = r.reverse ++ bytes.data.toList.drop i := by
  fun_induction ByteArray.toList.loop bytes i r with
  | case1 i r more ih =>
      have within : i < bytes.data.toList.length := more
      have here : bytes.get! i = bytes.data.toList[i] := getElem!_pos bytes.data i more
      rw [ih, List.drop_eq_getElem_cons within, ← here, List.reverse_cons, List.append_assoc,
        List.singleton_append]
  | case2 i r stop =>
      have past : bytes.data.toList.length ≤ i := Nat.not_lt.mp stop
      rw [List.drop_of_length_le past, List.append_nil]

theorem toList_eq (bytes : ByteArray) : bytes.toList = bytes.data.toList :=
  toList_loop_eq bytes 0 []

theorem encode_append (s t : String) :
    Text.Utf8.encode (s ++ t) = Text.Utf8.encode s ++ Text.Utf8.encode t := by
  rw [Text.Utf8.encode, Text.Utf8.encode, Text.Utf8.encode, toList_eq, toList_eq, toList_eq,
    String.toUTF8_eq_toByteArray, String.toUTF8_eq_toByteArray, String.toUTF8_eq_toByteArray,
    String.toByteArray_append, ByteArray.toList_data_append]

/-- A word stands somewhere in a path. -/
def Contains (word : List Char) (path : String) : Prop :=
  wordBytes word <:+: Text.Utf8.encode path

instance (word : List Char) (path : String) : Decidable (Contains word path) :=
  inferInstanceAs (Decidable (_ <:+: _))

/-- A word without slashes stands before a slash or after it. -/
theorem contains_slash_iff {word : List Char} (apart : slash ∉ wordBytes word)
    (before after : String) :
    Contains word (before ++ "/" ++ after) ↔ Contains word before ∨ Contains word after := by
  have bytes : Text.Utf8.encode (before ++ "/" ++ after) =
      Text.Utf8.encode before ++ slash :: Text.Utf8.encode after := by
    have one : Text.Utf8.encode "/" = [slash] := by decide +kernel
    rw [encode_append, encode_append, one, List.append_assoc, List.singleton_append]
  rw [Contains, bytes]
  exact infix_append_cons_iff apart

/-- A word without slashes stands in a path when it stands in the path of a directory on the way or
in the rest. -/
theorem contains_absoluteText_append {word : List Char} (apart : slash ∉ wordBytes word)
    (root : List String) {below : List String} (nonempty : below ≠ []) :
    Contains word (absoluteText (root ++ below)) ↔
      Contains word (absoluteText root) ∨ Contains word (join below) := by
  by_cases top : root = []
  · subst top
    have whole : absoluteText ([] ++ below) = "" ++ "/" ++ join below := rfl
    have front : absoluteText [] = "" ++ "/" ++ "" := rfl
    rw [whole, front, contains_slash_iff apart, contains_slash_iff apart, or_self]
  · have whole : absoluteText (root ++ below) = absoluteText root ++ "/" ++ join below := by
      rw [absoluteText, absoluteText, join, String.intercalate_append_of_ne_nil top nonempty]
      simp only [join, String.append_assoc]
    rw [whole, contains_slash_iff apart]

end SuiteMetrics.Files
