/-!
Text from bytes in UTF-8.

The bytes are read one scalar at a time. Where no scalar can be read, the bytes of its longest
beginning that could still have become one are taken together, or else one byte alone. A strict
reader refuses such bytes; a lenient one puts one replacement character for each such stretch.
-/

namespace SuiteMetrics.Text.Utf8

/-- The bytes of a text. -/
abbrev Bytes := List UInt8

/-- The replacement character. -/
def replacement : Char := '\ufffd'

/-- What a lead byte announces: how many bytes follow, the bits that it contributes, and the least
and the greatest second byte. -/
structure Lead where
  more : Nat
  bits : Nat
  low : Nat
  high : Nat

/-- What a byte announces, if it can begin a scalar of more than one byte. -/
def lead? (byte : Nat) : Option Lead :=
  if 0xC2 ≤ byte ∧ byte ≤ 0xDF then some ⟨1, byte - 0xC0, 0x80, 0xBF⟩
  else if byte = 0xE0 then some ⟨2, 0, 0xA0, 0xBF⟩
  else if byte = 0xED then some ⟨2, 0xD, 0x80, 0x9F⟩
  else if 0xE1 ≤ byte ∧ byte ≤ 0xEF then some ⟨2, byte - 0xE0, 0x80, 0xBF⟩
  else if byte = 0xF0 then some ⟨3, 0, 0x90, 0xBF⟩
  else if 0xF1 ≤ byte ∧ byte ≤ 0xF3 then some ⟨3, byte - 0xF0, 0x80, 0xBF⟩
  else if byte = 0xF4 then some ⟨3, 4, 0x80, 0x8F⟩
  else none

/-- The scalar that the following bytes complete, if they do, and the bytes after those that were
used. The next byte lies between two bounds. -/
def complete (more bits low high : Nat) (bytes : Bytes) : Option Char × Bytes :=
  match more, bytes with
  | 0, rest => (some (Char.ofNat bits), rest)
  | _ + 1, [] => (none, [])
  | more + 1, byte :: rest =>
    if low ≤ byte.toNat ∧ byte.toNat ≤ high then
      complete more (bits * 64 + (byte.toNat - 0x80)) 0x80 0xBF rest
    else (none, byte :: rest)

/-- The first scalar of some bytes, if there is one, and the bytes after it. -/
def next (byte : UInt8) (rest : Bytes) : Option Char × Bytes :=
  if byte.toNat < 0x80 then (some (Char.ofNat byte.toNat), rest)
  else
    match lead? byte.toNat with
    | some lead => complete lead.more lead.bits lead.low lead.high rest
    | none => (none, rest)

theorem length_complete_le (more bits low high : Nat) (bytes : Bytes) :
    (complete more bits low high bytes).2.length ≤ bytes.length := by
  induction more generalizing bits low high bytes with
  | zero => simp [complete]
  | succ more ih =>
      cases bytes with
      | nil => simp [complete]
      | cons byte rest =>
          simp only [complete]
          split
          · exact Nat.le_succ_of_le (ih _ _ _ rest)
          · simp

theorem length_next_le (byte : UInt8) (rest : Bytes) : (next byte rest).2.length ≤ rest.length := by
  unfold next
  split
  · simp
  · split
    · exact length_complete_le ..
    · simp

/-- The scalars of some bytes, with nothing for each stretch that is none. -/
def scalars : Bytes → List (Option Char)
  | [] => []
  | byte :: rest =>
    (next byte rest).1 :: scalars (next byte rest).2
termination_by bytes => bytes.length
decreasing_by
  have := length_next_le byte rest
  simp only [List.length_cons]
  omega

/-- The text of some bytes, with a replacement character for each stretch that is no scalar. -/
def decodeLenient (bytes : Bytes) : String :=
  String.ofList ((scalars bytes).map fun c => c.getD replacement)

/-- The text of some bytes, if all of them are scalars. -/
def decode? (bytes : Bytes) : Option String := ((scalars bytes).mapM id).map String.ofList

/-- The bytes of a text. -/
def encode (s : String) : Bytes := s.toUTF8.toList

end SuiteMetrics.Text.Utf8
