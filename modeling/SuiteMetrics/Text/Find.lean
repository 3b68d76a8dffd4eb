/-!
Looking for one text in another.

`occursIn` is the substring test; `occursIn_iff` says that it holds exactly when the text can be
cut into a front, the sought text and a back.
-/

namespace SuiteMetrics.Text

/-- Whether `sought` is a contiguous part of the text; the empty text is part of every text. -/
def occursIn (sought : List Char) : List Char → Bool
  | [] => sought.isEmpty
  | c :: r => sought.isPrefixOf (c :: r) || occursIn sought r

theorem occursIn_iff {sought s : List Char} :
    occursIn sought s = true ↔ ∃ front back, s = front ++ sought ++ back := by
  induction s with
  | nil =>
      simp only [occursIn, List.isEmpty_iff]
      constructor
      · rintro rfl
        exact ⟨[], [], rfl⟩
      · rintro ⟨front, back, h⟩
        simp only [List.append_assoc] at h
        exact (List.append_eq_nil_iff.1 (List.append_eq_nil_iff.1 h.symm).2).1
  | cons c r ih =>
      simp only [occursIn, Bool.or_eq_true, List.isPrefixOf_iff_prefix, ih]
      constructor
      · rintro (⟨back, h⟩ | ⟨front, back, rfl⟩)
        · exact ⟨[], back, by simpa using h.symm⟩
        · exact ⟨c :: front, back, rfl⟩
      · rintro ⟨front, back, h⟩
        cases front with
        | nil => exact .inl ⟨back, by simpa using h.symm⟩
        | cons d front =>
            have := List.cons.inj h
            exact .inr ⟨front, back, this.2⟩

/-- The parts of a text between one separating character: one part more than there are
separators. -/
def splitAt (separator : Char) (s : List Char) : List (List Char) :=
  go [] s
where
  /-- The parts of `current.reverse ++ s`, where `current` holds no separator. -/
  go (current : List Char) : List Char → List (List Char)
    | [] => [current.reverse]
    | c :: r => if c = separator then current.reverse :: go [] r else go (c :: current) r

/-- The part of a text after the last character of a class, or the whole text when it has
none. -/
def afterLast (p : Char → Bool) (s : List Char) : List Char :=
  (s.reverse.takeWhile fun c => !p c).reverse

/-- A text cut at its first character of one kind, which goes to neither side. -/
def splitFirst (separator : Char) (s : List Char) : Option (List Char × List Char) :=
  match s.span (· != separator) with
  | (_, []) => none
  | (front, _ :: back) => some (front, back)

end SuiteMetrics.Text
