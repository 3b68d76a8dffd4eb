import Mathlib.Data.List.Infix
import SuiteMetrics.Proofs.TextParts
import SuiteMetrics.Syntax.Tree

/-!
Comment lines and the lines of comments.

A comment line is told by itself: it begins or ends with a mark. Whether a line belongs to a comment
depends on the lines before it, as a block comment may be open there (`situate`). For sources whose
comments stand on lines of their own (`Arranged`) the two differ in one kind of line: a line between
the first and the last line of a block comment belongs to it and is told only if it begins with `//`
by chance. All other lines are counted rightly, wherever the comments stand and however long they
are (`comment_lines_eq_iff`).
-/

namespace SuiteMetrics.Syntax

open Text (isBlank trim lines)

/-! ### Lines in their place -/

/-- Whether a block comment is open behind a line, where the first argument says whether one is open
before it. Marks in quotes are marks here. -/
def opensBehind : Bool → List Char → Bool
  | within, [] => within
  | false, '/' :: '/' :: _ => false
  | false, '/' :: '*' :: r => opensBehind true r
  | false, _ :: r => opensBehind false r
  | true, '*' :: '/' :: r => opensBehind false r
  | true, _ :: r => opensBehind true r

/-- A line, and whether a block comment is open before it. -/
structure SituatedLine where
  within : Bool
  line : List Char

namespace SituatedLine

/-- Some of the line belongs to a comment. -/
def belongs (l : SituatedLine) : Bool :=
  l.within || Text.occursIn ['/', '/'] l.line || Text.occursIn ['/', '*'] l.line

/-- The line belongs to a block comment that neither begins nor ends in it. -/
def continues (l : SituatedLine) : Bool := l.within && opensBehind l.within l.line

/-- The line begins with the mark of a comment to the end of a line. -/
def isRemark (l : SituatedLine) : Bool := ['/', '/'].isPrefixOf (trim l.line)

/-- The line continues a comment, and nothing in it tells so. -/
def isUntold (l : SituatedLine) : Bool := l.continues && !l.isRemark

end SituatedLine

/-- Lines in their place, where the first argument says whether a block comment is open before
them. -/
def situate : Bool → List (List Char) → List SituatedLine
  | _, [] => []
  | within, line :: r => ⟨within, line⟩ :: situate (opensBehind within line) r

/-- The lines of a source in their place. -/
def situated (source : List Char) : List SituatedLine := situate false (lines source)

/-- Lines whose comments stand on lines of their own, where the first argument says whether a block
comment is open before them. -/
inductive Arranged : Bool → List (List Char) → Prop where
  | nil : Arranged false []
  /-- A line of code, or a blank one. -/
  | plain (line : List Char) {r : List (List Char)} (noRemark : ¬ ['/', '/'] <:+: line)
      (noOpener : ¬ ['/', '*'] <:+: line) (noCloser : ¬ ['*', '/'] <:+: line) :
      Arranged false r → Arranged false (line :: r)
  /-- A comment to the end of the line. -/
  | remark (margin text : List Char) {r : List (List Char)}
      (blank : ∀ c ∈ margin, isBlank c = true) :
      Arranged false r → Arranged false ((margin ++ '/' :: '/' :: text) :: r)
  /-- A block comment of one line. -/
  | block (margin text behind : List Char) {r : List (List Char)}
      (blank : ∀ c ∈ margin, isBlank c = true) (noCloser : ¬ ['*', '/'] <:+: text)
      (blankBehind : ∀ c ∈ behind, isBlank c = true) :
      Arranged false r →
        Arranged false ((margin ++ '/' :: '*' :: (text ++ '*' :: '/' :: behind)) :: r)
  /-- The first line of a block comment. -/
  | first (margin text : List Char) {r : List (List Char)}
      (blank : ∀ c ∈ margin, isBlank c = true) (noCloser : ¬ ['*', '/'] <:+: text) :
      Arranged true r → Arranged false ((margin ++ '/' :: '*' :: text) :: r)
  /-- A line between the first and the last line of a block comment. -/
  | inner (line : List Char) {r : List (List Char)} (noOpener : ¬ ['/', '*'] <:+: line)
      (noCloser : ¬ ['*', '/'] <:+: line) : Arranged true r → Arranged true (line :: r)
  /-- The last line of a block comment. -/
  | last (text behind : List Char) {r : List (List Char)} (noCloser : ¬ ['*', '/'] <:+: text)
      (blankBehind : ∀ c ∈ behind, isBlank c = true) :
      Arranged false r → Arranged true ((text ++ '*' :: '/' :: behind) :: r)

/-! ### What is open behind a line -/

theorem opensBehind_margin {margin : List Char} (blank : ∀ c ∈ margin, isBlank c = true)
    (s : List Char) : opensBehind false (margin ++ s) = opensBehind false s := by
  induction margin with
  | nil => rfl
  | cons c margin ih =>
      obtain ⟨here, later⟩ := List.forall_mem_cons.mp blank
      rw [List.cons_append, opensBehind, ih later]
      · rintro _ rfl
        cases here
      · rintro _ rfl
        cases here

theorem opensBehind_blank {s : List Char} (blank : ∀ c ∈ s, isBlank c = true) :
    opensBehind false s = false := by
  have := opensBehind_margin blank []
  rwa [List.append_nil] at this

theorem notInfix_tail {mark : List Char} {c : Char} {s : List Char} (h : ¬ mark <:+: c :: s) :
    ¬ mark <:+: s :=
  fun inside => h (inside.trans (List.suffix_cons c s).isInfix)

theorem opensBehind_of_noOpener {line : List Char} (noOpener : ¬ ['/', '*'] <:+: line) :
    opensBehind false line = false := by
  induction line with
  | nil => rfl
  | cons c r ih =>
      have later := ih (notInfix_tail noOpener)
      rw [opensBehind.eq_def]
      split
      case h_1 empty => cases empty
      case h_2 => rfl
      case h_3 opener =>
          rw [opener] at noOpener
          exact absurd (List.prefix_append ['/', '*'] _).isInfix noOpener
      case h_4 other =>
          rw [← (List.cons.inj other).2]
          exact later
      case h_5 no _ => cases no
      case h_6 no _ => cases no

/-- A block comment stays open over characters that do not begin its closer. -/
theorem opensBehind_cons {c : Char} {s : List Char} (noCloser : ¬ ['*', '/'] <+: c :: s) :
    opensBehind true (c :: s) = opensBehind true s := by
  rw [opensBehind]
  rintro r rfl rfl
  exact noCloser (List.prefix_append ['*', '/'] r)

theorem opensBehind_of_noCloser {line : List Char} (noCloser : ¬ ['*', '/'] <:+: line) :
    opensBehind true line = true := by
  induction line with
  | nil => rfl
  | cons c r ih =>
      rw [opensBehind_cons fun front => noCloser front.isInfix]
      exact ih (notInfix_tail noCloser)

/-- The first closer ends a block comment. -/
theorem opensBehind_closer {text : List Char} (noCloser : ¬ ['*', '/'] <:+: text)
    (r : List Char) : opensBehind true (text ++ '*' :: '/' :: r) = opensBehind false r := by
  induction text with
  | nil => rfl
  | cons c text ih =>
      rw [List.cons_append, opensBehind_cons, ih (notInfix_tail noCloser)]
      -- a star at the end of the text does not begin a closer either, as a star follows it
      intro front
      obtain ⟨rfl, next⟩ := List.cons_prefix_cons.mp front
      cases text with
      | nil => exact absurd (List.cons_prefix_cons.mp next).1 (by decide)
      | cons d text =>
          obtain ⟨rfl, -⟩ := List.cons_prefix_cons.mp next
          exact noCloser (List.prefix_append ['*', '/'] text).isInfix

/-! ### What is told of a line -/

theorem isCommentLine_of_begins {margin : List Char} (blank : ∀ c ∈ margin, isBlank c = true)
    {mark : Char} (isMark : mark = '/' ∨ mark = '*') (text : List Char) :
    isCommentLine (trim (margin ++ '/' :: mark :: text)) = true := by
  have slash : isBlank '/' = false := rfl
  have second : isBlank mark = false := by
    rcases isMark with rfl | rfl
    · rfl
    · rfl
  have trimmed : trim (margin ++ '/' :: mark :: text) =
      '/' :: mark :: Text.dropEndWhile isBlank text := by
    rw [trim, Text.trimBy_append_left blank, Text.trimBy,
      List.dropWhile_cons_of_neg (Bool.not_eq_true _ ▸ slash), Text.dropEndWhile_cons slash,
      Text.dropEndWhile_cons second]
  rw [trimmed, isCommentLine]
  rcases isMark with rfl | rfl
  · simp
  · simp

theorem isCommentLine_of_ends (text : List Char) {behind : List Char}
    (blank : ∀ c ∈ behind, isBlank c = true) :
    isCommentLine (trim (text ++ '*' :: '/' :: behind)) = true := by
  obtain ⟨front, left⟩ : ∃ front, (text ++ ['*', '/']).dropWhile isBlank = front ++ ['*', '/'] := by
    rw [List.dropWhile_append]
    split
    · exact ⟨[], rfl⟩
    · exact ⟨_, rfl⟩
  have trimmed : trim (text ++ '*' :: '/' :: behind) = front ++ ['*', '/'] := by
    have whole : text ++ '*' :: '/' :: behind = (text ++ ['*', '/']) ++ behind := by simp
    have last : ∀ c ∈ (front ++ ['*', '/']).getLast?, isBlank c = false := by
      rw [List.getLast?_append_of_ne_nil _ (by simp)]
      rintro c ⟨⟩
      rfl
    rw [whole, trim, Text.trimBy_append_right blank, Text.trimBy, left,
      Text.dropEndWhile_eq_self last]
  have closer : ['*', '/'].isSuffixOf (front ++ ['*', '/']) = true :=
    List.isSuffixOf_iff_suffix.mpr (List.suffix_append _ _)
  rw [trimmed, isCommentLine, closer, Bool.or_true]

theorem isInfix_trim (line : List Char) : trim line <:+: line := by
  obtain ⟨front, back, split, -⟩ := Text.trimBy_split isBlank line
  exact ⟨front, back, by rw [List.append_assoc]; exact split.symm⟩

/-- A line does not begin with a mark that does not occur in it. -/
theorem isPrefixOf_trim_eq_false {mark line : List Char} (absent : ¬ mark <:+: line) :
    mark.isPrefixOf (trim line) = false := by
  rw [Bool.eq_false_iff, ne_eq, List.isPrefixOf_iff_prefix]
  exact fun front => absent (front.isInfix.trans (isInfix_trim line))

/-- A line without the marks of block comments is told just if it begins as a remark. -/
theorem isCommentLine_of_plain {line : List Char} (noOpener : ¬ ['/', '*'] <:+: line)
    (noCloser : ¬ ['*', '/'] <:+: line) :
    isCommentLine (trim line) = ['/', '/'].isPrefixOf (trim line) := by
  have closer : ['*', '/'].isSuffixOf (trim line) = false := by
    rw [Bool.eq_false_iff, ne_eq, List.isSuffixOf_iff_suffix]
    exact fun back => noCloser (back.isInfix.trans (isInfix_trim line))
  rw [isCommentLine, isPrefixOf_trim_eq_false noOpener, closer, Bool.or_false, Bool.or_false]

theorem belongs_of_opener (margin : List Char) {mark : Char} (isMark : mark = '/' ∨ mark = '*')
    (text : List Char) : SituatedLine.belongs ⟨false, margin ++ '/' :: mark :: text⟩ = true := by
  have occurs : Text.occursIn ['/', mark] (margin ++ '/' :: mark :: text) = true :=
    Text.occursIn_iff.mpr ⟨margin, text, by simp⟩
  rw [SituatedLine.belongs]
  rcases isMark with rfl | rfl
  · simp [occurs]
  · simp [occurs]

theorem not_belongs_of_plain {line : List Char} (noRemark : ¬ ['/', '/'] <:+: line)
    (noOpener : ¬ ['/', '*'] <:+: line) : SituatedLine.belongs ⟨false, line⟩ = false := by
  have absent {mark : List Char} (none_ : ¬ mark <:+: line) : Text.occursIn mark line = false := by
    rw [Bool.eq_false_iff, ne_eq, Text.occursIn_iff]
    rintro ⟨front, back, split⟩
    exact none_ ⟨front, back, split.symm⟩
  rw [SituatedLine.belongs, absent noRemark, absent noOpener]
  rfl

/-! ### Counting -/

/-- The lines told as comment lines and the untold ones are the lines of comments, if this holds of
the first line and of the others. -/
theorem count_cons {within next : Bool} {line : List Char} {r : List (List Char)}
    (behind : opensBehind within line = next)
    (here : (isCommentLine (trim line)).toNat + (SituatedLine.isUntold ⟨within, line⟩).toNat =
      (SituatedLine.belongs ⟨within, line⟩).toNat)
    (others : r.countP (fun line => isCommentLine (trim line)) +
      (situate next r).countP SituatedLine.isUntold =
        (situate next r).countP SituatedLine.belongs) :
    (line :: r).countP (fun line => isCommentLine (trim line)) +
      (situate within (line :: r)).countP SituatedLine.isUntold =
        (situate within (line :: r)).countP SituatedLine.belongs := by
  have number (b : Bool) : (if b = true then 1 else 0) = b.toNat := by
    cases b with
    | false => rfl
    | true => rfl
  rw [situate, behind, List.countP_cons, List.countP_cons, List.countP_cons, number, number, number]
  omega

theorem Arranged.count {within : Bool} {ls : List (List Char)} (h : Arranged within ls) :
    ls.countP (fun line => isCommentLine (trim line)) +
      (situate within ls).countP SituatedLine.isUntold =
        (situate within ls).countP SituatedLine.belongs := by
  induction h with
  | nil => rfl
  | plain line noRemark noOpener noCloser _ ih =>
      refine count_cons (opensBehind_of_noOpener noOpener) ?_ ih
      rw [isCommentLine_of_plain noOpener noCloser, isPrefixOf_trim_eq_false noRemark,
        not_belongs_of_plain noRemark noOpener]
      rfl
  | remark margin text blank _ ih =>
      refine count_cons (opensBehind_margin blank _) ?_ ih
      rw [isCommentLine_of_begins blank (.inl rfl), belongs_of_opener margin (.inl rfl)]
      rfl
  | block margin text behind blank noCloser blankBehind _ ih =>
      have closed : opensBehind false (margin ++ '/' :: '*' :: (text ++ '*' :: '/' :: behind)) =
          false := by
        rw [opensBehind_margin blank, opensBehind, opensBehind_closer noCloser,
          opensBehind_blank blankBehind]
      refine count_cons closed ?_ ih
      rw [isCommentLine_of_begins blank (.inr rfl), belongs_of_opener margin (.inr rfl)]
      rfl
  | first margin text blank noCloser _ ih =>
      have opened : opensBehind false (margin ++ '/' :: '*' :: text) = true := by
        rw [opensBehind_margin blank, opensBehind, opensBehind_of_noCloser noCloser]
      refine count_cons opened ?_ ih
      rw [isCommentLine_of_begins blank (.inr rfl), belongs_of_opener margin (.inr rfl)]
      rfl
  | inner line noOpener noCloser _ ih =>
      have open_ := opensBehind_of_noCloser noCloser
      refine count_cons open_ ?_ ih
      rw [isCommentLine_of_plain noOpener noCloser, SituatedLine.isUntold, SituatedLine.continues,
        open_, SituatedLine.isRemark, SituatedLine.belongs]
      cases ['/', '/'].isPrefixOf (trim line) with
      | false => rfl
      | true => rfl
  | last text behind noCloser blankBehind _ ih =>
      have closed : opensBehind true (text ++ '*' :: '/' :: behind) = false := by
        rw [opensBehind_closer noCloser, opensBehind_blank blankBehind]
      refine count_cons closed ?_ ih
      rw [isCommentLine_of_ends text blankBehind, SituatedLine.isUntold, SituatedLine.continues,
        closed, SituatedLine.belongs]
      rfl

/-- Where comments stand on lines of their own, the comment lines are the lines of comments but for
the untold ones. So all lines of comments are counted exactly if every line between the first and
the last line of a block comment begins with `//`, for instance if no block comment has more than
two lines. -/
theorem comment_lines_eq_iff {source : List Char} (h : Arranged false (lines source)) :
    commentLines source + (situated source).countP SituatedLine.isUntold =
      (situated source).countP SituatedLine.belongs ∧
    (commentLines source = (situated source).countP SituatedLine.belongs ↔
      ∀ l ∈ situated source, l.continues = true → l.isRemark = true) := by
  have sum : commentLines source + (situated source).countP SituatedLine.isUntold =
      (situated source).countP SituatedLine.belongs := h.count
  refine ⟨sum, ?_⟩
  rw [← sum, Nat.left_eq_add, List.countP_eq_zero]
  refine forall₂_congr fun l _ => ?_
  rw [SituatedLine.isUntold, Bool.and_eq_true, Bool.not_eq_true', not_and, Bool.not_eq_false]

/-- Comments of all kinds, one of them with a line that begins as a remark and one that does not. -/
theorem comment_lines_eq_iff_allKinds :
    let source := "int a;\n  // one */\n/* two */\n\n/** three\n// four\n * five\n*/ ".toList
    Arranged false (lines source) ∧
      commentLines source + (situated source).countP SituatedLine.isUntold =
        (situated source).countP SituatedLine.belongs ∧
      (commentLines source = (situated source).countP SituatedLine.belongs ↔
        ∀ l ∈ situated source, l.continues = true → l.isRemark = true) := by
  intro source
  have split : lines source = ["int a;", "  // one */", "/* two */", "", "/** three", "// four",
      " * five", "*/ "].map String.toList := by
    decide
  have arranged : Arranged false (lines source) := by
    rw [split]
    refine .plain _ (by decide) (by decide) (by decide) ?_
    refine .remark [' ', ' '] " one */".toList (by simp [isBlank]) ?_
    refine .block [] " two ".toList [] (by simp) (by decide) (by simp) ?_
    refine .plain _ (by decide) (by decide) (by decide) ?_
    refine .first [] "* three".toList (by simp) (by decide) ?_
    refine .inner _ (by decide) (by decide) ?_
    refine .inner _ (by decide) (by decide) ?_
    exact .last [] [' '] (by decide) (by simp [isBlank]) .nil
  exact ⟨arranged, comment_lines_eq_iff arranged⟩

/-- The middle line of a block comment belongs to it and is not counted. -/
theorem middle_line_not_counted :
    let source := "/*\n * text\n */".toList
    Arranged false (lines source) ∧ commentLines source = 2 ∧
      (situated source).countP SituatedLine.belongs = 3 := by
  intro source
  have split : lines source = ["/*", " * text", " */"].map String.toList := by
    decide
  refine ⟨?_, by decide, by decide⟩
  rw [split]
  refine .first [] [] (by simp) (by decide) ?_
  refine .inner _ (by decide) (by decide) ?_
  exact .last [' '] [] (by decide) (by simp) .nil

end SuiteMetrics.Syntax
