/-!
White space and its removal from the ends of a text.

A text is a list of characters here. Blank means Unicode's property White_Space, which is wider
than the six ASCII blanks and leaves out the separators U+001C to U+001F. What is left after
trimming the start of a text begins with no blank (`head_trimStart`).
-/

namespace SuiteMetrics.Text

/-- The characters with Unicode's property White_Space. -/
def isBlank (c : Char) : Bool :=
  let code := c.toNat
  (0x09 ≤ code && code ≤ 0x0D) || code == 0x20 || code == 0x85 || code == 0xA0 ||
  code == 0x1680 || (0x2000 ≤ code && code ≤ 0x200A) || code == 0x2028 || code == 0x2029 ||
  code == 0x202F || code == 0x205F || code == 0x3000

/-- The four blanks that markup and JSON know: space, tab, line feed and carriage return. -/
def isMarkupBlank (c : Char) : Bool :=
  c == ' ' || c == '\t' || c == '\n' || c == '\r'

/-- Blanks of markup and JSON, any number of them. -/
abbrev Blanks := { s : List Char // ∀ c ∈ s, isMarkupBlank c = true }

/-- A text without the characters of one class at its end. -/
def dropEndWhile (p : Char → Bool) (s : List Char) : List Char :=
  (s.reverse.dropWhile p).reverse

/-- A text without the characters of one class at either end. -/
def trimBy (p : Char → Bool) (s : List Char) : List Char :=
  dropEndWhile p (s.dropWhile p)

/-- A text without the blanks at its start. -/
def trimStart (s : List Char) : List Char := s.dropWhile isBlank

/-- A text without the blanks at its end. -/
def trimEnd (s : List Char) : List Char := dropEndWhile isBlank s

/-- A text without the blanks at either end. -/
def trim (s : List Char) : List Char := trimBy isBlank s

/-- No blank is left in front. -/
theorem head_trimStart {s r : List Char} {c : Char} (h : trimStart s = c :: r) :
    isBlank c = false := by
  induction s with
  | nil => simp [trimStart] at h
  | cons d s ih =>
      by_cases hd : isBlank d = true
      · exact ih (by simpa [trimStart, List.dropWhile_cons, hd] using h)
      · have := (List.cons.inj (by simpa [trimStart, List.dropWhile_cons, hd] using h)).1
        simpa [← this] using hd

theorem isBlank_of_isMarkupBlank {c : Char} (h : isMarkupBlank c = true) : isBlank c = true := by
  simp only [isMarkupBlank, Bool.or_eq_true, beq_iff_eq, or_assoc] at h
  obtain rfl | rfl | rfl | rfl := h <;> rfl

theorem dropWhile_blanks (b : Blanks) {c : Char} (hc : isMarkupBlank c = false) (r : List Char) :
    (b.1 ++ c :: r).dropWhile isMarkupBlank = c :: r := by
  rw [List.dropWhile_append_of_pos b.2]
  simp [hc]

/-- Blanks of markup and JSON in front are taken off. -/
theorem trimStart_append {blanks r : List Char} {c : Char}
    (blank : ∀ d ∈ blanks, isMarkupBlank d = true) (hc : isBlank c = false) :
    trimStart (blanks ++ c :: r) = c :: r := by
  rw [trimStart, List.dropWhile_append_of_pos fun d hd => isBlank_of_isMarkupBlank (blank d hd)]
  simp [hc]

/-- The words of a text: its longest runs without a blank. -/
def words (s : List Char) : List (List Char) :=
  go [] s
where
  /-- The words of `current.reverse ++ s`, where `current` holds no blank. -/
  go (current : List Char) : List Char → List (List Char)
    | [] => if current.isEmpty then [] else [current.reverse]
    | c :: r =>
      if isBlank c then
        if current.isEmpty then go [] r else current.reverse :: go [] r
      else go (c :: current) r

end SuiteMetrics.Text
