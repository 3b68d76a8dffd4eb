import Mathlib.Data.List.TakeDrop
import Mathlib.Data.List.TakeWhile
import SuiteMetrics.Text.Blank
import SuiteMetrics.Text.Find
import SuiteMetrics.Text.Line

/-!
Parts of a text.

Trimming takes the characters of a class off both ends of a text, and nothing else
(`trimBy_split`). What is left has none of them at its ends (`head?_trimBy`, `getLast?_trimBy`), and
a text without them at its ends is left as it is (`trimBy_eq_self`). A text is cut at its first
separator (`splitFirst_append`), unless it has none (`splitFirst_eq_none`). Behind whole lines the
lines are counted afresh (`lines_append`).
-/

namespace SuiteMetrics.Text

variable {p : Char → Bool} {s : List Char}

/-! ### Trimming -/

/-- What is taken off the end consists of characters of the class. -/
theorem dropEndWhile_split (p : Char → Bool) (s : List Char) :
    ∃ back, s = dropEndWhile p s ++ back ∧ ∀ c ∈ back, p c = true := by
  refine ⟨(s.reverse.takeWhile p).reverse, ?_,
    fun c hc => List.all_eq_true.1 List.all_takeWhile c (List.mem_reverse.1 hc)⟩
  rw [dropEndWhile, ← List.reverse_append, List.takeWhile_append_dropWhile, List.reverse_reverse]

theorem getLast?_dropEndWhile {c : Char} (h : (dropEndWhile p s).getLast? = some c) :
    p c = false := by
  have back := List.head?_dropWhile_not p s.reverse
  rw [dropEndWhile, List.getLast?_reverse] at h
  rw [h] at back
  exact back

/-- A character that is not of the class is not taken off, nor is what stands before it. -/
theorem dropEndWhile_cons {c : Char} (hc : p c = false) (s : List Char) :
    dropEndWhile p (c :: s) = c :: dropEndWhile p s := by
  rw [dropEndWhile, List.reverse_cons, List.dropWhile_append, dropEndWhile]
  split
  case isTrue nothing => simp [List.isEmpty_iff.1 nothing, hc]
  case isFalse => simp

/-- What trimming takes off stands at the ends and consists of characters of the class. -/
theorem trimBy_split (p : Char → Bool) (s : List Char) :
    ∃ front back, s = front ++ (trimBy p s ++ back) ∧
      (∀ c ∈ front, p c = true) ∧ ∀ c ∈ back, p c = true := by
  obtain ⟨back, split, blank⟩ := dropEndWhile_split p (s.dropWhile p)
  refine ⟨s.takeWhile p, back, ?_, fun c hc => List.all_eq_true.1 List.all_takeWhile c hc, blank⟩
  rw [trimBy, ← split, List.takeWhile_append_dropWhile]

theorem mem_of_mem_trimBy {c : Char} (h : c ∈ trimBy p s) : c ∈ s := by
  obtain ⟨front, back, split, -⟩ := trimBy_split p s
  rw [split]
  exact List.mem_append_right _ (List.mem_append_left _ h)

theorem dropEndWhile_append_of_pos {back : List Char} (blank : ∀ c ∈ back, p c = true)
    (s : List Char) : dropEndWhile p (s ++ back) = dropEndWhile p s := by
  rw [dropEndWhile, List.reverse_append, List.dropWhile_append_of_pos, dropEndWhile]
  exact fun c hc => blank c (List.mem_reverse.1 hc)

theorem dropEndWhile_eq_self (plain : ∀ c ∈ s.getLast?, p c = false) : dropEndWhile p s = s := by
  obtain rfl | ⟨front, c, rfl⟩ := s.eq_nil_or_concat
  · rfl
  · have hc : p c = false := plain c (by simp)
    simp [dropEndWhile, hc]

theorem dropWhile_eq_self (plain : ∀ c ∈ s.head?, p c = false) : s.dropWhile p = s := by
  cases s with
  | nil => rfl
  | cons c r => simp [plain c rfl]

theorem trimBy_eq_self (start : ∀ c ∈ s.head?, p c = false)
    (end_ : ∀ c ∈ s.getLast?, p c = false) : trimBy p s = s := by
  rw [trimBy, dropWhile_eq_self start, dropEndWhile_eq_self end_]

theorem trimBy_append_left {front : List Char} (blank : ∀ c ∈ front, p c = true)
    (s : List Char) : trimBy p (front ++ s) = trimBy p s := by
  rw [trimBy, List.dropWhile_append_of_pos blank, trimBy]

theorem trimBy_append_right {back : List Char} (blank : ∀ c ∈ back, p c = true)
    (s : List Char) : trimBy p (s ++ back) = trimBy p s := by
  rw [trimBy, List.dropWhile_append, trimBy]
  split
  case isTrue nothing =>
    rw [List.isEmpty_iff.1 nothing]
    have rest : ∀ c ∈ back.dropWhile p, p c = true := fun c hc =>
      blank c ((List.dropWhile_sublist p).mem hc)
    exact dropEndWhile_append_of_pos rest []
  case isFalse => exact dropEndWhile_append_of_pos blank _

theorem trimBy_append {front back : List Char} (blankFront : ∀ c ∈ front, p c = true)
    (blankBack : ∀ c ∈ back, p c = true) (s : List Char) :
    trimBy p (front ++ (s ++ back)) = trimBy p s := by
  rw [trimBy_append_left blankFront, trimBy_append_right blankBack]

theorem trimBy_eq_nil_iff : trimBy p s = [] ↔ ∀ c ∈ s, p c = true := by
  constructor
  · intro nothing c hc
    obtain ⟨front, back, split, blankFront, blankBack⟩ := trimBy_split p s
    rw [split, nothing, List.nil_append] at hc
    exact (List.mem_append.1 hc).elim (blankFront c) (blankBack c)
  · intro blank
    have all : trimBy p (s ++ []) = trimBy p [] := trimBy_append_left blank []
    rw [List.append_nil] at all
    exact all

theorem head?_trimBy {c : Char} (h : (trimBy p s).head? = some c) : p c = false := by
  have front := List.head?_dropWhile_not p s
  obtain ⟨back, same, -⟩ := dropEndWhile_split p (s.dropWhile p)
  rw [same, ← trimBy, List.head?_append, h] at front
  exact front

theorem getLast?_trimBy {c : Char} (h : (trimBy p s).getLast? = some c) : p c = false :=
  getLast?_dropEndWhile h

theorem trimBy_trimBy : trimBy p (trimBy p s) = trimBy p s :=
  trimBy_eq_self (fun _ h => head?_trimBy h) fun _ h => getLast?_trimBy h

/-! ### Separators -/

section Separators

variable {separator : Char}

theorem ne_separator {front : List Char} (plain : separator ∉ front) :
    ∀ c ∈ front, (c != separator) = true := by
  intro c hc
  rw [bne_iff_ne]
  rintro rfl
  exact plain hc

theorem splitFirst_append {front : List Char} (plain : separator ∉ front) (back : List Char) :
    splitFirst separator (front ++ separator :: back) = some (front, back) := by
  rw [splitFirst, List.span_eq_takeWhile_dropWhile,
    List.takeWhile_append_of_pos (ne_separator plain),
    List.dropWhile_append_of_pos (ne_separator plain)]
  simp

theorem splitFirst_eq_none (plain : separator ∉ s) : splitFirst separator s = none := by
  rw [splitFirst, List.span_eq_takeWhile_dropWhile,
    List.dropWhile_eq_nil_iff.2 (ne_separator plain)]

theorem splitFirst_eq_some_iff {front back : List Char} :
    splitFirst separator s = some (front, back) ↔
      s = front ++ separator :: back ∧ separator ∉ front := by
  constructor
  · intro h
    by_cases present : separator ∈ s
    · obtain ⟨front', back', rfl, plain⟩ := List.eq_append_cons_of_mem present
      rw [splitFirst_append plain] at h
      obtain ⟨rfl, rfl⟩ := Prod.mk.inj (Option.some.inj h)
      exact ⟨rfl, plain⟩
    · rw [splitFirst_eq_none present] at h
      simp at h
  · rintro ⟨rfl, plain⟩
    exact splitFirst_append plain back

end Separators

/-! ### Lines -/

/-- A text of whole lines: it is empty or ends with a line feed. -/
def IsWhole (s : List Char) : Prop := s = [] ∨ s.getLast? = some '\n'

instance (s : List Char) : Decidable (IsWhole s) := inferInstanceAs (Decidable (_ ∨ _))

theorem linesFrom_append {front : List Char} (ends : front.getLast? = some '\n')
    (current back : List Char) :
    linesFrom current (front ++ back) = linesFrom current front ++ lines back := by
  induction front generalizing current with
  | nil => simp at ends
  | cons c r ih =>
      cases r with
      | nil =>
          obtain rfl : c = '\n' := by simpa using ends
          simp
      | cons d r =>
          rw [List.getLast?_cons_cons] at ends
          rw [List.cons_append, linesFrom, linesFrom, ih ends, ih ends]
          split
          · rfl
          · rfl

theorem lines_append {front : List Char} (whole : IsWhole front) (back : List Char) :
    lines (front ++ back) = lines front ++ lines back := by
  rcases whole with rfl | ends
  · rfl
  · exact linesFrom_append ends [] back

theorem linesFrom_line {line : List Char} (plain : '\n' ∉ line) (current back : List Char) :
    linesFrom current (line ++ '\n' :: back) =
      (dropReturn (line.reverse ++ current)).reverse :: lines back := by
  induction line generalizing current with
  | nil => simp
  | cons c r ih =>
      rw [List.mem_cons, not_or] at plain
      rw [List.cons_append, linesFrom, if_neg (Ne.symm plain.1), ih plain.2, List.reverse_cons,
        List.append_assoc, List.singleton_append]

theorem dropReturn_eq_self (plain : s.head? ≠ some '\r') : dropReturn s = s := by
  cases s with
  | nil => rfl
  | cons c r =>
      rw [dropReturn]
      rintro r' same
      exact plain (by rw [same]; rfl)

/-- A line feed ends a line, with a carriage return before it or without. -/
theorem lines_line {line ending : List Char} (plain : '\n' ∉ line)
    (last : line.getLast? ≠ some '\r') (ends : ending = ['\n'] ∨ ending = ['\r', '\n'])
    (back : List Char) : lines (line ++ ending ++ back) = line :: lines back := by
  have same : dropReturn line.reverse = line.reverse :=
    dropReturn_eq_self (by rwa [List.head?_reverse])
  rcases ends with rfl | rfl
  · have := linesFrom_line plain [] back
    rw [List.append_nil, same, List.reverse_reverse] at this
    simpa [lines] using this
  · have plain' : '\n' ∉ line ++ ['\r'] := by simpa using plain
    have := linesFrom_line plain' [] back
    rw [List.append_nil, List.reverse_concat, dropReturn, List.reverse_reverse] at this
    simpa [lines] using this

end SuiteMetrics.Text
