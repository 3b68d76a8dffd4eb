import SuiteMetrics.Proofs.FirstRecord
import SuiteMetrics.Proofs.PathEnds

/-!
A record amid noise.

The readability model is given the path of a file from the root, and writes it back before the
score. Both the path and the record end up with the same name (`scoreOf?_recordLine`), however they
are taken apart. Lines that are no records of this name are noise (`noise_iff`): they may stand
anywhere, and no line behind the record is looked at (`score_found_amid_noise`).
-/

namespace SuiteMetrics

/-! ### The text of a number -/

namespace Decimal

open Text (isBlank)

variable {s : List Char}

theorem isBlank_of_isDigit {c : Char} (h : isDigit c = true) : isBlank c = false := by
  simp only [isDigit, Bool.and_eq_true, decide_eq_true_eq, Char.le_def, UInt32.le_iff_toNat_le] at h
  have range : 48 ≤ c.toNat ∧ c.toNat ≤ 57 := h
  simp only [isBlank, Bool.or_eq_false_iff, Bool.and_eq_false_iff, beq_eq_false_iff_ne,
    decide_eq_false_iff_not]
  omega

theorem plain_of_takeSign (h : ∀ c ∈ (takeSign s).2, isBlank c = false) :
    ∀ c ∈ s, isBlank c = false := by
  unfold takeSign at h
  split at h
  · exact List.forall_mem_cons.2 ⟨rfl, h⟩
  · exact List.forall_mem_cons.2 ⟨rfl, h⟩
  · exact h

theorem plain_of_spanDigits (h : ∀ c ∈ (spanDigits s).2, isBlank c = false) :
    ∀ c ∈ s, isBlank c = false := by
  rw [spanDigits, List.span_eq_takeWhile_dropWhile] at h
  rw [← List.takeWhile_append_dropWhile (p := isDigit) (l := s), List.forall_mem_append]
  exact ⟨fun c hc => isBlank_of_isDigit (List.all_eq_true.1 List.all_takeWhile c hc), h⟩

theorem plain_of_readExponent? {e : Int} (h : readExponent? s = some e) :
    ∀ c ∈ s, isBlank c = false := by
  cases s with
  | nil => simp
  | cons c r =>
      rw [readExponent?, Option.ite_none_right_eq_some] at h
      obtain ⟨marker, h⟩ := h
      dsimp only at h
      rw [Option.ite_none_left_eq_some, Bool.or_eq_true, not_or, Bool.not_eq_true',
        Bool.not_eq_false, List.all_eq_true] at h
      refine List.forall_mem_cons.2 ⟨by rcases marker with rfl | rfl <;> rfl, ?_⟩
      exact plain_of_takeSign fun c hc => isBlank_of_isDigit (h.1.2 c hc)

theorem plain_of_readMagnitude? {x : Float} (h : readMagnitude? s = some x) :
    ∀ c ∈ s, isBlank c = false := by
  refine plain_of_spanDigits ?_
  unfold readMagnitude? at h
  dsimp only at h
  rw [Option.ite_none_left_eq_some, Option.map_eq_some_iff] at h
  obtain ⟨-, e, exponent, -⟩ := h
  have rest := plain_of_readExponent? exponent
  split at rest
  case h_1 r point =>
    rw [point]
    exact List.forall_mem_cons.2 ⟨rfl, plain_of_spanDigits rest⟩
  case h_2 => exact rest

theorem toLower_eq_self_of_isBlank {c : Char} (h : isBlank c = true) : c.toLower = c := by
  rw [Char.toLower, dif_neg]
  intro upper
  have range : 65 ≤ c.toNat ∧ c.toNat ≤ 90 := by
    rwa [ge_iff_le, UInt32.le_iff_toNat_le, UInt32.le_iff_toNat_le] at upper
  simp only [isBlank, Bool.or_eq_true, Bool.and_eq_true, decide_eq_true_eq, beq_iff_eq] at h
  omega

/-- The text of a number holds no blanks, not even around the number. -/
theorem plain_of_readFloat? {x : Float} (h : readFloat? s = some x) :
    ∀ c ∈ s, isBlank c = false := by
  refine plain_of_takeSign fun c hc => ?_
  unfold readFloat? at h
  obtain ⟨magnitude, read, -⟩ := Option.map_eq_some_iff.1 h
  have named {name : String} (same : String.ofList ((takeSign s).2.map Char.toLower) = name)
      (plain : name.toList.all fun c => !isBlank c) : isBlank c = false := by
    by_contra blank
    rw [Bool.not_eq_false] at blank
    rw [← same, String.toList_ofList, List.all_map] at plain
    have low := List.all_eq_true.1 plain c hc
    rw [Function.comp, toLower_eq_self_of_isBlank blank, blank] at low
    exact Bool.noConfusion low
  split at read
  case h_1 same => exact named same (by decide)
  case h_2 same => exact named same (by decide)
  case h_3 same => exact named same (by decide)
  case h_4 => exact plain_of_readMagnitude? read c hc

theorem ne_nil_of_readFloat? {x : Float} (h : readFloat? s = some x) : s ≠ [] := by
  rintro rfl
  cases h

end Decimal

namespace Readability

open Files (EndsWithName IsName absolute lastPart)
open Text (IsWhole isBlank trim)
open Tool (Output Runner)

/-! ### Noise -/

/-- A line that is no record of a name: blanks at its ends apart, it has no tab, begins in an
ignored way, or has another name before its first tab. -/
def Noise (ignored : List String) (name line : List Char) : Prop :=
  '\t' ∉ trim line ∨ isIgnored ignored (trim line) = true ∨
    ∃ field score, Text.splitFirst '\t' (trim line) = some (field, score) ∧ baseName field ≠ name

section

variable {ignored : List String} {name : List Char}

theorem noise_iff {line : List Char} :
    Noise ignored name line ↔ scoreOf? (record? ignored) name line = none := by
  unfold Noise scoreOf? record?
  dsimp only
  by_cases skipped : isIgnored ignored (trim line) = true
  · simp [skipped]
  rw [if_neg skipped, or_iff_right_of_imp fun h => absurd h skipped]
  by_cases tab : '\t' ∈ trim line
  · obtain ⟨field, rest, split, plain⟩ := List.eq_append_cons_of_mem tab
    have found := Text.splitFirst_append plain rest
    rw [← split] at found
    simp [tab, found, Option.filter]
  · simp [tab, Text.splitFirst_eq_none tab]

/-- Noise anywhere among whole lines changes nothing. -/
theorem findSome?_noise {front noise : List Char} (whole : IsWhole front) (whole' : IsWhole noise)
    (none_ : ∀ line ∈ Text.lines noise, Noise ignored name line) (back : List Char) :
    (Text.lines (front ++ noise ++ back)).findSome? (scoreOf? (record? ignored) name) =
      (Text.lines (front ++ back)).findSome? (scoreOf? (record? ignored) name) := by
  have quiet : (Text.lines noise).findSome? (scoreOf? (record? ignored) name) = none :=
    List.findSome?_eq_none_iff.2 fun line mem => noise_iff.1 (none_ line mem)
  rw [List.append_assoc, Text.lines_append whole, Text.lines_append whole', Text.lines_append whole,
    List.findSome?_append, List.findSome?_append, List.findSome?_append, quiet, Option.none_or]

/-- What is printed decides the score by the first record of the file. -/
theorem scoreIn?_congr {printed printed' : List Char}
    (same : (Text.lines printed).findSome? (scoreOf? (record? ignored) name) =
      (Text.lines printed').findSome? (scoreOf? (record? ignored) name)) :
    scoreIn? ignored name printed = scoreIn? ignored name printed' := by
  refine Option.ext fun x => ?_
  rw [scoreIn?_eq_some_iff_first, scoreIn?_eq_some_iff_first, firstHolds_iff, firstHolds_iff, same]

end

/-! ### The record of the file that is asked for -/

/-- A file whose path from the root can stand in a record: the path ends with a name and not with a
blank, and holds no tab, line feed or backslash. -/
structure Recordable (directory file : String) : Prop where
  root : Files.isAbsolute directory = true
  named : IsName (lastPart file)
  noTab : '\t' ∉ (absolute directory file).toList
  noLineFeed : '\n' ∉ (absolute directory file).toList
  noBackslash : '\\' ∉ (absolute directory file).toList
  last : ∀ c ∈ (absolute directory file).toList.getLast?, isBlank c = false

/-- The record of a file with the text of its score. -/
def recordLine (directory file : String) (score : List Char) : List Char :=
  (absolute directory file).toList ++ '\t' :: score

/-- The model prints a text for a file, and ends well. -/
def Prints (s : Settings) (run : Runner) (directory file : String) (printed : List Char) : Prop :=
  ∃ o, run (s.call (absolute directory file)) = .ok o ∧ o.status = some 0 ∧
    o.stdout.toList = printed

section

variable {directory file : String} {settings : Settings} {score : List Char} {x : Float}

theorem Recordable.endsWithName (h : Recordable directory file) :
    ∃ front, (absolute directory file).toList = front ++ '/' :: (lastPart file).toList :=
  Files.absolute_endsWithName (Files.endsWithName_lastPart h.named) directory

theorem Recordable.subject? (h : Recordable directory file) :
    Readability.subject? directory file = some (absolute directory file, lastPart file) := by
  have ends : EndsWithName (absolute directory file) (lastPart file) :=
    ⟨h.named, .inr h.endsWithName⟩
  have nonempty : ¬file.isEmpty = true := by
    intro empty
    rw [String.isEmpty_iff] at empty
    exact h.named.1 (by rw [empty]; rfl)
  rw [Readability.subject?, if_neg nonempty]
  dsimp only
  rw [Files.fileName?_of_endsWithName ends]
  rfl

theorem Prints.score?_eq (h : Recordable directory file) {run : Runner} {printed : List Char}
    (prints : Prints settings run directory file printed) :
    score? directory settings run file =
      scoreIn? settings.ignored (lastPart file).toList printed := by
  obtain ⟨o, answer, ended, rfl⟩ := prints
  rw [score?, h.subject?]
  dsimp only
  rw [answer]
  dsimp only
  rw [Settings.scoreIn?, Output.success, ended]
  rfl

theorem Recordable.head?_path (h : Recordable directory file) :
    (absolute directory file).toList.head? = some '/' :=
  beq_iff_eq.1 (Files.isAbsolute_absolute h.root file)

theorem Recordable.trim_path (h : Recordable directory file) :
    trim (absolute directory file).toList = (absolute directory file).toList :=
  Text.trimBy_eq_self (by simp [h.head?_path]; decide) h.last

/-- The path in a record has the name of the file. -/
theorem Recordable.baseName (h : Recordable directory file) :
    Readability.baseName (absolute directory file).toList = (lastPart file).toList := by
  obtain ⟨front, split⟩ := h.endsWithName
  rw [Readability.baseName, h.trim_path, split]
  refine Text.afterLast_append rfl fun c hc => ?_
  have slash : c ≠ '/' := by
    rintro rfl
    exact h.named.2.2.2 hc
  have backslash : c ≠ '\\' := by
    rintro rfl
    refine h.noBackslash ?_
    rw [split]
    exact List.mem_append_right _ (List.mem_cons_of_mem _ hc)
  simp [slash, backslash]

/-- A record stands alone on its line, with nothing to take off at its ends. -/
theorem recordLine_ends (h : Recordable directory file)
    (number : Decimal.readFloat? score = some x) :
    '\n' ∉ recordLine directory file score ∧
      (∀ c ∈ (recordLine directory file score).head?, isBlank c = false) ∧
      ∀ c ∈ (recordLine directory file score).getLast?, isBlank c = false := by
  have plain := Decimal.plain_of_readFloat? number
  refine ⟨fun mem => ?_, fun c hc => ?_, fun c hc => ?_⟩
  · rcases List.mem_append.1 mem with mem | mem
    · exact h.noLineFeed mem
    · have blank := plain '\n' ((List.mem_cons.1 mem).resolve_left (by decide))
      exact absurd blank (by decide)
  · rw [recordLine, List.head?_append, h.head?_path] at hc
    cases hc
    rfl
  · rw [recordLine, ← List.singleton_append, ← List.append_assoc,
      List.getLast?_append_of_ne_nil _ (Decimal.ne_nil_of_readFloat? number)] at hc
    exact plain c (List.mem_of_getLast? hc)

/-- The record of a file is read as one, with the score that it holds. -/
theorem scoreOf?_recordLine (h : Recordable directory file)
    (number : Decimal.readFloat? score = some x)
    (kept : isIgnored settings.ignored (recordLine directory file score) = false) :
    scoreOf? (record? settings.ignored) (lastPart file).toList (recordLine directory file score) =
      some score := by
  obtain ⟨-, first, last⟩ := recordLine_ends h number
  have plain := Decimal.plain_of_readFloat? number
  have same : trim (recordLine directory file score) = recordLine directory file score :=
    Text.trimBy_eq_self first last
  have bareScore : trim score = score :=
    Text.trimBy_eq_self (fun c hc => plain c (List.mem_of_head? hc))
      fun c hc => plain c (List.mem_of_getLast? hc)
  have split : Text.splitFirst '\t' (recordLine directory file score) =
      some ((absolute directory file).toList, score) :=
    Text.splitFirst_append h.noTab score
  simp [scoreOf?, record?, same, kept, split, Option.filter, h.baseName, bareScore]

/-- Behind whole lines, the record of a file is a line of its own. -/
theorem lines_recordLine (h : Recordable directory file)
    (number : Decimal.readFloat? score = some x) {front ending : List Char} (whole : IsWhole front)
    (ends : ending = ['\n'] ∨ ending = ['\r', '\n']) (back : List Char) :
    Text.lines (front ++ (recordLine directory file score ++ ending ++ back)) =
      Text.lines front ++ recordLine directory file score :: Text.lines back := by
  obtain ⟨plain, -, last⟩ := recordLine_ends h number
  rw [Text.lines_append whole, Text.lines_line plain (fun r => ?_) ends]
  exact absurd (last _ r) (by decide)

/-- The first record of a file is before a record of the file, or is this one. -/
theorem findSome?_recordLine (h : Recordable directory file)
    (number : Decimal.readFloat? score = some x)
    (kept : isIgnored settings.ignored (recordLine directory file score) = false)
    {front ending : List Char} (whole : IsWhole front)
    (ends : ending = ['\n'] ∨ ending = ['\r', '\n']) (back : List Char) :
    (Text.lines (front ++ (recordLine directory file score ++ ending ++ back))).findSome?
        (scoreOf? (record? settings.ignored) (lastPart file).toList) =
      ((Text.lines front).findSome?
        (scoreOf? (record? settings.ignored) (lastPart file).toList)).or (some score) := by
  rw [lines_recordLine h number whole ends, List.findSome?_append, List.findSome?_cons,
    scoreOf?_recordLine h number kept]

end

/-- The score of a file is found amid any noise. The record of the file decides once the lines
before it are noise; noise may come and go between any lines, and so may everything behind the
record. -/
theorem score_found_amid_noise {directory file : String} (settings : Settings)
    {score : List Char} {x : Float} (recordable : Recordable directory file)
    (number : Decimal.readFloat? score = some x) (finite : x.isFinite = true)
    (kept : isIgnored settings.ignored (recordLine directory file score) = false) :
    (∀ run front ending back, ending = ['\n'] ∨ ending = ['\r', '\n'] → IsWhole front →
        (∀ line ∈ Text.lines front, Noise settings.ignored (lastPart file).toList line) →
        Prints settings run directory file
          (front ++ (recordLine directory file score ++ ending ++ back)) →
        score? directory settings run file = some x) ∧
      (∀ run run' front noise back, IsWhole front → IsWhole noise →
        (∀ line ∈ Text.lines noise, Noise settings.ignored (lastPart file).toList line) →
        Prints settings run directory file (front ++ back) →
        Prints settings run' directory file (front ++ noise ++ back) →
        score? directory settings run file = score? directory settings run' file) ∧
      (∀ run run' front ending back ending' back', ending = ['\n'] ∨ ending = ['\r', '\n'] →
        ending' = ['\n'] ∨ ending' = ['\r', '\n'] → IsWhole front →
        Prints settings run directory file
          (front ++ (recordLine directory file score ++ ending ++ back)) →
        Prints settings run' directory file
          (front ++ (recordLine directory file score ++ ending' ++ back')) →
        score? directory settings run file = score? directory settings run' file) := by
  refine ⟨?_, ?_, ?_⟩
  · intro run front ending back ends whole noise prints
    have quiet : (Text.lines front).findSome?
        (scoreOf? (record? settings.ignored) (lastPart file).toList) = none :=
      List.findSome?_eq_none_iff.2 fun line mem => noise_iff.1 (noise line mem)
    have first := findSome?_recordLine recordable number kept whole ends back
    rw [quiet, Option.none_or] at first
    rw [prints.score?_eq recordable, scoreIn?_eq_some_iff_first, firstHolds_iff]
    exact ⟨score, first, number, finite⟩
  · intro run run' front noise back whole whole' none_ prints prints'
    rw [prints.score?_eq recordable, prints'.score?_eq recordable]
    exact scoreIn?_congr (findSome?_noise whole whole' none_ back).symm
  · intro run run' front ending back ending' back' ends ends' whole prints prints'
    rw [prints.score?_eq recordable, prints'.score?_eq recordable]
    refine scoreIn?_congr ?_
    rw [findSome?_recordLine recordable number kept whole ends,
      findSome?_recordLine recordable number kept whole ends']

/-- The record of a file stands behind a line of the log, a record of another file and a line
without a tab, with carriage returns at the ends of the lines. -/
theorem score_found_amid_noise_log :
    Recordable "/w" "d/A.java" ∧ Decimal.readFloat? "0.5".toList = some 0.5 ∧
      (0.5 : Float).isFinite = true ∧
      isIgnored ["[INFO]"] (recordLine "/w" "d/A.java" "0.5".toList) = false ∧
      score? "/w" ⟨"java", [], none, ["[INFO]"]⟩
        (fun _ => .ok ⟨some 0,
          "[INFO]\tA.java\r\nB.java\t1\r\nA.java\r\n/w/d/A.java\t0.5\r\nend", ""⟩)
        "d/A.java" = some 0.5 := by
  have path : absolute "/w" "d/A.java" = "/w/d/A.java" := by decide
  have last : ∀ c ∈ "/w/d/A.java".toList.getLast?, isBlank c = false := by
    rintro c ⟨⟩
    rfl
  have recordable : Recordable "/w" "d/A.java" :=
    ⟨by decide, by decide, by decide, by decide, by decide, path ▸ last⟩
  have number : Decimal.readFloat? "0.5".toList = some 0.5 := rfl
  have noise : ∀ line ∈ Text.lines "[INFO]\tA.java\r\nB.java\t1\r\nA.java\r\n".toList,
      scoreOf? (record? ["[INFO]"]) (lastPart "d/A.java").toList line = none := by decide
  refine ⟨recordable, number, rfl, by decide, ?_⟩
  exact (score_found_amid_noise ⟨"java", [], none, ["[INFO]"]⟩ recordable
    number rfl (by decide)).1 _
      "[INFO]\tA.java\r\nB.java\t1\r\nA.java\r\n".toList ['\r', '\n'] "end".toList (.inr rfl)
      (by decide) (fun line mem => noise_iff.2 (noise line mem)) ⟨_, rfl, rfl, by decide +kernel⟩

end Readability

end SuiteMetrics
