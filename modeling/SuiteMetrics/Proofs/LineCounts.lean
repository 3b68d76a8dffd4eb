import SuiteMetrics.Maintainability
import SuiteMetrics.Proofs.TextParts
import SuiteMetrics.Proofs.WholeNumbers
import SuiteMetrics.Syntax.Tree

/-!
The laws of counting lines.

A line is counted by what is left of it when it is trimmed, and nothing is counted where nothing is
left. So the ends of lines have no part in the counts: instead of the lines of a text one may count
what stands between its line feeds (`countP_lines`), where a carriage return at the end is one blank
more and an empty part at the end of the text is one blank line more. Both counts are additive and
the same for both kinds of line ends, and a comment line is always a line of code
(`line_counts`).
-/

namespace SuiteMetrics.Text

/-- A text with carriage returns before its line feeds. -/
def withReturns (s : List Char) : List Char :=
  s.flatMap fun c => if c = '\n' then ['\r', '\n'] else [c]

theorem trim_append_return (s : List Char) : trim (s ++ ['\r']) = trim s := by
  have return_ : ∀ c ∈ ['\r'], isBlank c = true := List.forall_mem_singleton.mpr rfl
  exact trimBy_append_right return_ s

theorem trim_dropReturn (line : List Char) :
    trim (dropReturn line).reverse = trim line.reverse := by
  cases line with
  | nil => rfl
  | cons c r =>
      by_cases return_ : c = '\r'
      · subst return_
        rw [dropReturn, List.reverse_cons, trim_append_return]
      · rw [dropReturn_eq_self (by simpa using return_)]

theorem splitAt_go_append (separator : Char) (current front back : List Char) :
    splitAt.go separator current (front ++ separator :: back) =
      splitAt.go separator current front ++ splitAt separator back := by
  induction front generalizing current with
  | nil => simp [splitAt.go, splitAt]
  | cons c r ih =>
      rw [List.cons_append, splitAt.go, splitAt.go]
      split
      · rw [ih, List.cons_append]
      · exact ih _

section Counting

variable {p : List Char → Bool}

theorem countP_linesFrom (nothing : p [] = false) (current s : List Char) :
    (linesFrom current s).countP (fun line => p (trim line)) =
      (splitAt.go '\n' current s).countP fun line => p (trim line) := by
  induction s generalizing current with
  | nil =>
      cases current with
      | nil => simp [linesFrom, splitAt.go, trim, trimBy, dropEndWhile, nothing]
      | cons c r => rfl
  | cons c r ih =>
      rw [linesFrom, splitAt.go]
      split
      · rw [List.countP_cons, List.countP_cons, ih, trim_dropReturn]
      · exact ih _

/-- Lines that are counted by what is left of them can be counted between line feeds. -/
theorem countP_lines (nothing : p [] = false) (s : List Char) :
    (lines s).countP (fun line => p (trim line)) =
      (splitAt '\n' s).countP fun line => p (trim line) :=
  countP_linesFrom nothing [] s

theorem countP_lines_append (nothing : p [] = false) (a b : List Char) :
    (lines (a ++ '\n' :: b)).countP (fun line => p (trim line)) =
      (lines a).countP (fun line => p (trim line)) +
        (lines b).countP fun line => p (trim line) := by
  rw [countP_lines nothing, countP_lines nothing, countP_lines nothing, splitAt,
    splitAt_go_append, List.countP_append]
  rfl

theorem countP_go_withReturns (p : List Char → Bool) (current s : List Char) :
    (splitAt.go '\n' current (withReturns s)).countP (fun line => p (trim line)) =
      (splitAt.go '\n' current s).countP fun line => p (trim line) := by
  induction s generalizing current with
  | nil => rfl
  | cons c r ih =>
      rw [withReturns, List.flatMap_cons, ← withReturns]
      by_cases lineFeed : c = '\n'
      · subst lineFeed
        have ends : splitAt.go '\n' current ('\r' :: '\n' :: withReturns r) =
            ('\r' :: current).reverse :: splitAt.go '\n' [] (withReturns r) := by
          simp [splitAt.go]
        rw [if_pos rfl, List.cons_append, List.singleton_append, ends, List.reverse_cons,
          splitAt.go, if_pos rfl, List.countP_cons, List.countP_cons, trim_append_return, ih]
      · rw [if_neg lineFeed, List.singleton_append, splitAt.go, if_neg lineFeed, splitAt.go,
          if_neg lineFeed]
        exact ih _

theorem countP_lines_withReturns (nothing : p [] = false) (s : List Char) :
    (lines (withReturns s)).countP (fun line => p (trim line)) =
      (lines s).countP fun line => p (trim line) := by
  rw [countP_lines nothing, countP_lines nothing]
  exact countP_go_withReturns p [] s

end Counting

end SuiteMetrics.Text

namespace SuiteMetrics.Decimal

/-- The double of a count of 64 bits is finite. -/
theorem isFinite_ofNat {n : Nat} (small : n < 2 ^ 64) : (Float.ofNat n).isFinite = true := by
  have zero : Representable 0 := ⟨0, 0, by decide, by decide, by simp⟩
  have bound : Representable (2 ^ 64) := representable_natCast_two_pow
  have fits : |(2 : ℚ) ^ 64| < 2 ^ 1024 := by
    rw [abs_of_pos (by positivity)]
    exact pow_lt_pow_right₀ one_lt_two (by decide)
  refine (rounds_ofNat n).isFinite_of_between zero bound (by simp) fits n.cast_nonneg ?_
  exact_mod_cast small.le

/-- The share of some of the things that are counted, as a double, lies between 0 and 1. -/
theorem share_between {part whole : Nat} (pos : 0 < whole) (le : part ≤ whole)
    (small : whole < 2 ^ 64) :
    (Float.ofNat part / Float.ofNat whole).isFinite = true ∧
      0 ≤ value (Float.ofNat part / Float.ofNat whole) ∧
      value (Float.ofNat part / Float.ofNat whole) ≤ 1 := by
  have zero : Representable 0 := ⟨0, 0, by decide, by decide, by simp⟩
  have one : Representable 1 := ⟨1, 0, by decide, by decide, by simp⟩
  have finitePart := isFinite_ofNat (le.trans_lt small)
  have finiteWhole := isFinite_ofNat small
  have nearPart := (rounds_ofNat part).nearest finitePart
  have nearWhole := (rounds_ofNat whole).nearest finiteWhole
  have numerator : 0 ≤ value (Float.ofNat part) := nearPart.le_of_le zero part.cast_nonneg
  have denominator : 1 ≤ value (Float.ofNat whole) :=
    nearWhole.le_of_le one (by exact_mod_cast pos)
  have ordered : value (Float.ofNat part) ≤ value (Float.ofNat whole) := by
    rcases le.eq_or_lt with rfl | lt
    · exact le_rfl
    · exact nearPart.le_of_lt nearWhole (by exact_mod_cast lt)
  have lower : 0 ≤ value (Float.ofNat part) / value (Float.ofNat whole) :=
    div_nonneg numerator (by linarith)
  have upper : value (Float.ofNat part) / value (Float.ofNat whole) ≤ 1 :=
    div_le_one_of_le₀ ordered (by linarith)
  have quotient := rounds_div finitePart finiteWhole (by linarith)
  have fits : |(1 : ℚ)| < 2 ^ 1024 := by
    rw [abs_one]
    exact one_lt_pow₀ one_lt_two (by decide)
  have finite := quotient.isFinite_of_between zero one (by simp) fits lower upper
  have near := quotient.nearest finite
  exact ⟨finite, near.le_of_le zero lower, near.ge_of_ge one upper⟩

end SuiteMetrics.Decimal

namespace SuiteMetrics.Syntax

open Decimal (value)
open Text (withReturns)

theorem commentLines_le_linesOfCode (s : List Char) : commentLines s ≤ linesOfCode s := by
  refine List.countP_mono_left ?_
  intro line _ comment
  rw [Bool.not_eq_true']
  cases rest : Text.trim line with
  | nil =>
      rw [rest] at comment
      cases comment
  | cons c r => rfl

/-- The counts of two texts with a line feed between them are the sums of their counts, the counts
do not depend on the kind of line ends, and there are no more comment lines than lines of code, so
that the density of comments, where there is one, lies between 0 and 1. A count has 64 bits. -/
theorem line_counts :
    (∀ a b, linesOfCode (a ++ '\n' :: b) = linesOfCode a + linesOfCode b ∧
      commentLines (a ++ '\n' :: b) = commentLines a + commentLines b) ∧
    (∀ s, linesOfCode (withReturns s) = linesOfCode s ∧
      commentLines (withReturns s) = commentLines s) ∧
    ∀ s, commentLines s ≤ linesOfCode s ∧ (linesOfCode s = 0 → commentLines s = 0) ∧
      (commentDensity? (linesOfCode s) (commentLines s) = none ↔ linesOfCode s = 0) ∧
      ∀ density, linesOfCode s < 2 ^ 64 →
        commentDensity? (linesOfCode s) (commentLines s) = some density →
        density.isFinite = true ∧ 0 ≤ value density ∧ value density ≤ 1 := by
  refine ⟨fun a b => ⟨?_, ?_⟩, fun s => ⟨?_, ?_⟩, fun s => ?_⟩
  · exact Text.countP_lines_append (p := fun line => !line.isEmpty) rfl a b
  · exact Text.countP_lines_append (p := isCommentLine) rfl a b
  · exact Text.countP_lines_withReturns (p := fun line => !line.isEmpty) rfl s
  · exact Text.countP_lines_withReturns (p := isCommentLine) rfl s
  · have le := commentLines_le_linesOfCode s
    refine ⟨le, fun none_ => Nat.le_zero.mp (none_ ▸ le), ?_, ?_⟩
    · rw [commentDensity?]
      split <;> simp [*]
    · intro density small some_
      rw [commentDensity?] at some_
      split at some_
      case isTrue => cases some_
      case isFalse pos =>
        cases some_
        exact Decimal.share_between (Nat.pos_of_ne_zero pos) le small

/-- A text with both kinds of line ends, a line of a wide blank and a carriage return at its end, and
a text of blanks. -/
theorem line_counts_mixedEnds :
    let s := "// a\r\n\u3000\nint b;\r".toList
    let blanks := "\r\n\u2003\r".toList
    let half := Float.ofNat 1 / Float.ofNat 2
    linesOfCode s < 2 ^ 64 ∧ commentDensity? (linesOfCode s) (commentLines s) = some half ∧
      half.isFinite = true ∧ 0 ≤ value half ∧ value half ≤ 1 ∧
      linesOfCode blanks = 0 ∧ commentLines blanks = 0 := by
  intro s blanks half
  have code : linesOfCode s = 2 := by decide
  have comments : commentLines s = 1 := by decide
  have small : linesOfCode s < 2 ^ 64 := by
    rw [code]
    decide
  have density : commentDensity? (linesOfCode s) (commentLines s) = some half := by
    rw [code, comments]
    rfl
  have none_ : linesOfCode blanks = 0 := by decide
  obtain ⟨finite, lower, upper⟩ := (line_counts.2.2 s).2.2.2 half small density
  exact ⟨small, density, finite, lower, upper, none_, (line_counts.2.2 blanks).2.1 none_⟩

end SuiteMetrics.Syntax
