import Mathlib.Algebra.Group.Nat.Defs
import Mathlib.Data.List.TakeWhile
import SuiteMetrics.Violations.Message

/-!
The last match in a message.

The value in a message is looked for from left to right, and each search goes on behind the match
before. Since no match of a rule's phrase can begin inside another one (`Apart`), nothing is passed
over in this way: the last match is the last position of the message where the phrase stands with a
digit behind it (`getLast?_matchesOf`, `lastDigits?_eq_some`). So the value is decided by that
position alone (`value_of_last_number`).
-/

namespace SuiteMetrics.Violations

open Text (isDecimalDigit)

/-! ### Positions -/

/-- A phrase stands at a position of a text, with a digit right behind it. -/
def NumberAt (phrase s : List Char) (i : Nat) : Prop :=
  ∃ front digit back, s = front ++ phrase ++ digit :: back ∧ front.length = i ∧
    isDecimalDigit digit = true

/-- The digits behind a phrase that stands at a position, as many as there are. -/
def digitsAt (phrase s : List Char) (i : Nat) : List Char :=
  (s.drop (i + phrase.length)).takeWhile isDecimalDigit

/-- The digits after the last occurrence of a phrase that has digits after it. -/
def lastDigits? (phrase : List Char) : List Char → Option (List Char)
  | [] => none
  | c :: r =>
    match lastDigits? phrase r with
    | some digits => some digits
    | none => digitsAfter? phrase (c :: r)

variable {phrase s : List Char}

theorem digitsAfter?_eq_some_iff {digits : List Char} :
    digitsAfter? phrase s = some digits ↔
      phrase <+: s ∧ (s.drop phrase.length).takeWhile isDecimalDigit = digits ∧ digits ≠ [] := by
  unfold digitsAfter?
  rw [Option.ite_none_right_eq_some, List.isPrefixOf_iff_prefix]
  refine and_congr_right fun _ => ?_
  split
  · rename_i nothing
    simp only [nothing, reduceCtorEq, false_iff, not_and, not_not]
    exact Eq.symm
  · rename_i some_
    rw [Option.some.injEq]
    exact ⟨fun same => ⟨same, same ▸ some_⟩, And.left⟩

theorem takeWhile_ne_nil_iff {p : Char → Bool} :
    s.takeWhile p ≠ [] ↔ ∃ c r, s = c :: r ∧ p c = true := by
  cases s with
  | nil => simp
  | cons c r => by_cases h : p c = true <;> simp [h]

theorem numberAt_zero_iff :
    NumberAt phrase s 0 ↔ digitsAfter? phrase s = some (digitsAt phrase s 0) := by
  rw [digitsAfter?_eq_some_iff, digitsAt, Nat.zero_add, takeWhile_ne_nil_iff]
  constructor
  · rintro ⟨front, digit, back, rfl, empty, isDigit⟩
    rw [List.eq_nil_of_length_eq_zero empty, List.nil_append]
    exact ⟨List.prefix_append .., rfl, digit, back, List.drop_left .., isDigit⟩
  · rintro ⟨⟨rest, rfl⟩, -, digit, back, same, isDigit⟩
    rw [List.drop_left] at same
    exact ⟨[], digit, back, by simp [same], rfl, isDigit⟩

theorem numberAt_succ_iff {c : Char} {i : Nat} :
    NumberAt phrase (c :: s) (i + 1) ↔ NumberAt phrase s i := by
  constructor
  · rintro ⟨front, digit, back, same, length, isDigit⟩
    obtain ⟨d, front, rfl⟩ := List.exists_cons_of_length_eq_add_one length
    exact ⟨front, digit, back, (List.cons.inj same).2, Nat.succ.inj length, isDigit⟩
  · rintro ⟨front, digit, back, rfl, rfl, isDigit⟩
    exact ⟨c :: front, digit, back, rfl, rfl, isDigit⟩

theorem not_numberAt_nil (i : Nat) : ¬ NumberAt phrase [] i := by
  rintro ⟨front, digit, back, same, -⟩
  simp at same

theorem numberAt_add_iff {k i : Nat} :
    NumberAt phrase s (k + i) ↔ NumberAt phrase (s.drop k) i := by
  induction k generalizing s with
  | zero => rw [Nat.zero_add, List.drop_zero]
  | succ k ih =>
      cases s with
      | nil => simp [not_numberAt_nil]
      | cons c r => rw [Nat.succ_add, numberAt_succ_iff, ih, List.drop_succ_cons]

theorem lastDigits?_eq_none_iff :
    lastDigits? phrase s = none ↔ ∀ i, ¬ NumberAt phrase s i := by
  induction s with
  | nil => simp [lastDigits?, not_numberAt_nil]
  | cons c r ih =>
      have here : digitsAfter? phrase (c :: r) = none ↔ ¬ NumberAt phrase (c :: r) 0 := by
        rw [numberAt_zero_iff]
        cases found : digitsAfter? phrase (c :: r) with
        | none => simp
        | some digits => simpa [digitsAt] using (digitsAfter?_eq_some_iff.1 found).2.1.symm
      rw [lastDigits?]
      constructor
      · intro none_ i
        split at none_
        · simp at none_
        · rename_i later
          cases i with
          | zero => exact here.1 none_
          | succ i => exact mt numberAt_succ_iff.1 (ih.1 later i)
      · intro nowhere
        rw [ih.2 fun i => mt numberAt_succ_iff.2 (nowhere (i + 1))]
        exact here.2 (nowhere 0)

/-- The digits found last are those at the last position. -/
theorem lastDigits?_eq_some {i : Nat} (here : NumberAt phrase s i)
    (last : ∀ j, NumberAt phrase s j → j ≤ i) :
    lastDigits? phrase s = some (digitsAt phrase s i) := by
  induction s generalizing i with
  | nil => exact absurd here (not_numberAt_nil i)
  | cons c r ih =>
      rw [lastDigits?]
      cases i with
      | zero =>
          have later : lastDigits? phrase r = none := lastDigits?_eq_none_iff.2 fun j h => by
            have := last (j + 1) (numberAt_succ_iff.2 h)
            omega
          rw [later]
          exact numberAt_zero_iff.1 here
      | succ i =>
          have found := ih (numberAt_succ_iff.1 here)
            fun j h => Nat.le_of_succ_le_succ (last (j + 1) (numberAt_succ_iff.2 h))
          rw [found, digitsAt, digitsAt, Nat.add_right_comm, List.drop_succ_cons]

/-- Of the positions of a number in a text there is a last one, if there is any. -/
theorem exists_last_numberAt (somewhere : ∃ i, NumberAt phrase s i) :
    ∃ i, NumberAt phrase s i ∧ ∀ j, NumberAt phrase s j → j ≤ i := by
  induction s with
  | nil => exact absurd somewhere.choose_spec (not_numberAt_nil _)
  | cons c r ih =>
      by_cases later : ∃ i, NumberAt phrase r i
      · obtain ⟨i, there, last⟩ := ih later
        refine ⟨i + 1, numberAt_succ_iff.2 there, fun j h => ?_⟩
        cases j with
        | zero => exact Nat.zero_le _
        | succ j => exact Nat.succ_le_succ (last j (numberAt_succ_iff.1 h))
      · have nowhere (j : Nat) : ¬ NumberAt phrase (c :: r) (j + 1) := fun h =>
          later ⟨j, numberAt_succ_iff.1 h⟩
        obtain ⟨i, here⟩ := somewhere
        cases i with
        | succ i => exact absurd here (nowhere i)
        | zero =>
            refine ⟨0, here, fun j h => ?_⟩
            cases j with
            | zero => exact Nat.le_refl 0
            | succ j => exact absurd h (nowhere j)

/-! ### Matches that do not overlap -/

/-- No match of a phrase begins inside another: the phrase begins with no digit, and none of its
ends is a beginning of it. -/
structure Apart (phrase : List Char) : Prop where
  begins : ∃ c r, phrase = c :: r ∧ isDecimalDigit c = false
  ends : ∀ k < phrase.length, 0 < k → ¬ phrase.drop k <+: phrase

theorem Rule.apart_phrase (rule : Rule) : Apart rule.phrase := by
  cases rule with
  | cognitive => exact ⟨⟨'c', _, rfl, by decide⟩, by decide +kernel⟩
  | cyclomatic => exact ⟨⟨'c', _, rfl, by decide⟩, by decide +kernel⟩

/-- Behind the beginning of a match and before its end no other begins. -/
theorem Apart.digitsAfter?_drop (apart : Apart phrase) {digits : List Char}
    (found : digitsAfter? phrase s = some digits) {k : Nat} (positive : 0 < k)
    (inside : k < phrase.length + digits.length) : digitsAfter? phrase (s.drop k) = none := by
  obtain ⟨⟨rest, rfl⟩, same, -⟩ := digitsAfter?_eq_some_iff.1 found
  rw [List.drop_left] at same
  have other : ¬ phrase <+: (phrase ++ rest).drop k := by
    intro again
    by_cases short : k < phrase.length
    · rw [List.drop_append_of_le_length (Nat.le_of_lt short)] at again
      refine apart.ends k short positive ?_
      exact List.prefix_of_prefix_length_le (List.prefix_append _ rest) again (by simp)
    · -- one of the digits stands here
      obtain ⟨c, r, rfl, noDigit⟩ := apart.begins
      rw [List.drop_append, List.drop_eq_nil_of_le (Nat.le_of_not_lt short), List.nil_append]
        at again
      obtain ⟨more, again⟩ := again
      have lies : k - (c :: r).length < digits.length := by omega
      have digit : c ∈ digits := by
        have prefix_ : digits <+: rest := same ▸ List.takeWhile_prefix _
        have at_ : rest[k - (c :: r).length]? = some c := by
          rw [← List.head?_drop, ← again]
          rfl
        obtain ⟨tail, rfl⟩ := prefix_
        rw [List.getElem?_append_left lies] at at_
        exact List.mem_of_getElem? at_
      rw [← same] at digit
      rw [List.mem_takeWhile_imp digit] at noDigit
      exact absurd noDigit (by simp)
  unfold digitsAfter?
  rw [if_neg (mt List.isPrefixOf_iff_prefix.1 other)]

theorem matchesFrom_eq_drop (phrase : List Char) (passed : Nat) (s : List Char) :
    matchesFrom phrase passed s = matchesOf phrase (s.drop passed) := by
  induction s generalizing passed with
  | nil => simp [matchesOf, matchesFrom]
  | cons c r ih =>
      cases passed with
      | zero => rfl
      | succ passed => exact ih passed

/-- Where no match begins, nothing is lost by going on. -/
theorem lastDigits?_drop {k : Nat} (none_ : ∀ j < k, digitsAfter? phrase (s.drop j) = none) :
    lastDigits? phrase (s.drop k) = lastDigits? phrase s := by
  induction k generalizing s with
  | zero => rfl
  | succ k ih =>
      cases s with
      | nil => rfl
      | cons c r =>
          have later := ih fun j hj => none_ (j + 1) (Nat.succ_lt_succ hj)
          have here : digitsAfter? phrase (c :: r) = none := none_ 0 (Nat.succ_pos k)
          rw [List.drop_succ_cons, later, lastDigits?, here]
          cases lastDigits? phrase r <;> rfl

/-- The search from left to right ends with the last occurrence. -/
theorem Apart.getLast?_matchesOf (apart : Apart phrase) (s : List Char) :
    (matchesOf phrase s).getLast? = lastDigits? phrase s := by
  cases s with
  | nil => rfl
  | cons c r =>
      rw [matchesOf, matchesFrom, lastDigits?]
      cases found : digitsAfter? phrase (c :: r) with
      | none =>
          have rest := apart.getLast?_matchesOf r
          rw [matchesOf] at rest
          dsimp only
          rw [rest]
          cases lastDigits? phrase r <;> rfl
      | some digits =>
          have between : ∀ j < phrase.length + digits.length - 1,
              digitsAfter? phrase (r.drop j) = none := fun j hj =>
            apart.digitsAfter?_drop found (k := j + 1) (Nat.succ_pos j) (by omega)
          have rest := apart.getLast?_matchesOf (r.drop (phrase.length + digits.length - 1))
          rw [lastDigits?_drop between] at rest
          dsimp only
          rw [List.getLast?_cons, matchesFrom_eq_drop, rest]
          cases lastDigits? phrase r <;> rfl
termination_by s.length
decreasing_by
  · exact Nat.lt_succ_self _
  · rw [List.length_drop, List.length_cons]
    omega

theorem extract?_eq_lastDigits? (rule : Rule) (message : List Char) :
    extract? rule message = (lastDigits? rule.phrase message).bind value? := by
  rw [extract?, rule.apart_phrase.getLast?_matchesOf]

/-! ### Values -/

/-- Digits have a value if they are ASCII digits and it is not beyond the limit. -/
theorem value?_eq_some_iff {digits : List Char} {v : Total} :
    value? digits = some v ↔
      (∀ c ∈ digits, c.isDigit = true) ∧ v.val = Nat.ofDigitChars 10 digits 0 := by
  have ascii : digits.all Decimal.isDigit = true ↔ ∀ c ∈ digits, c.isDigit = true :=
    List.all_eq_true
  unfold value?
  dsimp only
  rw [← ascii]
  split
  · rename_i h
    rw [Option.some.injEq]
    exact ⟨fun same => ⟨h.1, same ▸ rfl⟩, fun same => Capped.ext same.2.symm⟩
  · rename_i h
    simp only [reduceCtorEq, false_iff]
    rintro ⟨all, same⟩
    exact h ⟨all, le_of_eq_of_le same.symm v.val_le⟩

theorem isDecimalDigit_of_isDigit {c : Char} (h : c.isDigit = true) : isDecimalDigit c = true := by
  simp only [Char.isDigit, Bool.and_eq_true, decide_eq_true_eq, ge_iff_le, UInt32.le_iff_toNat_le]
    at h
  refine List.any_eq_true.2 ⟨0x30, List.mem_cons_self, ?_⟩
  rw [Bool.and_eq_true, decide_eq_true_eq, decide_eq_true_eq]
  exact ⟨h.1, Nat.lt_succ_of_le h.2⟩

/-- The number of a rule in a message that holds no other behind it. -/
theorem Apart.last_number (apart : Apart phrase) {message front digits back : List Char}
    (split : message = front ++ phrase ++ (digits ++ back)) (some_ : digits ≠ [])
    (all : ∀ c ∈ digits, isDecimalDigit c = true)
    (ends : ∀ c ∈ back.head?, isDecimalDigit c = false) (none_ : ∀ i, ¬ NumberAt phrase back i) :
    NumberAt phrase message front.length ∧
      (∀ j, NumberAt phrase message j → j ≤ front.length) ∧
      digitsAt phrase message front.length = digits := by
  have behind : message.drop (front.length + phrase.length) = digits ++ back := by
    rw [split, List.drop_left' (List.length_append ..)]
  have run : digitsAt phrase message front.length = digits := by
    have stops : back.takeWhile isDecimalDigit = [] := by
      cases back with
      | nil => rfl
      | cons c back => simp [ends c (by simp)]
    rw [digitsAt, behind, List.takeWhile_append_of_pos all, stops, List.append_nil]
  have here : digitsAfter? phrase (message.drop front.length) = some digits := by
    refine digitsAfter?_eq_some_iff.2 ⟨?_, ?_, some_⟩
    · rw [split, List.append_assoc, List.drop_left]
      exact List.prefix_append ..
    · rw [List.drop_drop]
      exact run
  have there : NumberAt phrase message front.length := by
    refine (numberAt_add_iff (i := 0)).2 (numberAt_zero_iff.2 ?_)
    rw [here, digitsAt, Nat.zero_add, List.drop_drop, ← run, digitsAt]
  refine ⟨there, fun j h => Nat.le_of_not_lt fun beyond => ?_, run⟩
  obtain ⟨k, rfl⟩ := Nat.exists_eq_add_of_le (Nat.le_of_lt beyond)
  by_cases inside : k < phrase.length + digits.length
  · -- it would begin inside the match at the front's end
    rw [numberAt_add_iff, ← Nat.add_zero k, numberAt_add_iff, numberAt_zero_iff,
      apart.digitsAfter?_drop here (by omega) inside] at h
    simp at h
  · obtain ⟨i, rfl⟩ := Nat.exists_eq_add_of_le (Nat.le_of_not_lt inside)
    rw [← Nat.add_assoc, numberAt_add_iff, ← Nat.add_assoc, ← List.drop_drop, behind,
      List.drop_left] at h
    exact none_ i h

theorem Rule.ofName?_name (rule : Rule) : ofName? rule.name = some rule := by
  cases rule <;> rfl

theorem Rule.ofName?_eq_none {name : String} (cognitive : name ≠ "CognitiveComplexity")
    (cyclomatic : name ≠ "CyclomaticComplexity") : ofName? name = none := by
  simp [ofName?, all, Rule.name, Ne.symm cognitive, Ne.symm cyclomatic]

/-- The last number of a rule decides the value. -/
theorem valueIn?_eq_some_iff {rule : Rule} {message : List Char} {i n : Nat}
    (here : NumberAt rule.phrase message i)
    (last : ∀ j, NumberAt rule.phrase message j → j ≤ i) :
    (valueIn? rule.name message).map (·.val) = some n ↔
      (∀ c ∈ digitsAt rule.phrase message i, c.isDigit = true) ∧
        Nat.ofDigitChars 10 (digitsAt rule.phrase message i) 0 = n ∧ n < 2 ^ 64 := by
  rw [valueIn?, Rule.ofName?_name, Option.bind_some, extract?_eq_lastDigits?,
    lastDigits?_eq_some here last, Option.bind_some, Option.map_eq_some_iff]
  constructor
  · rintro ⟨v, value, rfl⟩
    obtain ⟨ascii, same⟩ := value?_eq_some_iff.1 value
    exact ⟨ascii, same.symm, Nat.lt_succ_of_le v.val_le⟩
  · rintro ⟨ascii, rfl, small⟩
    exact ⟨⟨_, Nat.le_of_lt_succ small⟩, value?_eq_some_iff.2 ⟨ascii, rfl⟩, rfl⟩

/-- What decides the value in a message. A name that is no rule's has none. For a rule it is the
last position where the rule's phrase stands with a digit behind it, if there is any: the value is
the number that all the digits there write, if they are ASCII digits and it is below `2 ^ 64`, and
otherwise there is none. So the value of a number that is written behind the phrase is found, with
anything in front of the phrase and nothing of this kind behind the number. -/
theorem value_of_last_number :
    (∀ (name : String) (message : List Char), name ≠ "CognitiveComplexity" →
      name ≠ "CyclomaticComplexity" → valueIn? name message = none) ∧
    (∀ (rule : Rule) (message : List Char),
      ((∀ i, ¬ NumberAt rule.phrase message i) ∧ valueIn? rule.name message = none) ∨
      ∃ i, NumberAt rule.phrase message i ∧ (∀ j, NumberAt rule.phrase message j → j ≤ i) ∧
        ∀ n, (valueIn? rule.name message).map (·.val) = some n ↔
          (∀ c ∈ digitsAt rule.phrase message i, c.isDigit = true) ∧
            Nat.ofDigitChars 10 (digitsAt rule.phrase message i) 0 = n ∧ n < 2 ^ 64) ∧
    ∀ (rule : Rule) (n : Nat) (front back : List Char), n < 2 ^ 64 →
      (∀ c ∈ back.head?, isDecimalDigit c = false) → (∀ i, ¬ NumberAt rule.phrase back i) →
      (valueIn? rule.name (front ++ rule.phrase ++ Nat.toDigits 10 n ++ back)).map (·.val) =
        some n := by
  refine ⟨fun name message cognitive cyclomatic => ?_, fun rule message => ?_,
    fun rule n front back small ends none_ => ?_⟩
  · rw [valueIn?, Rule.ofName?_eq_none cognitive cyclomatic, Option.bind_none]
  · by_cases somewhere : ∃ i, NumberAt rule.phrase message i
    · obtain ⟨i, here, last⟩ := exists_last_numberAt somewhere
      exact .inr ⟨i, here, last, fun n => valueIn?_eq_some_iff here last⟩
    · have nowhere := not_exists.1 somewhere
      refine .inl ⟨nowhere, ?_⟩
      rw [valueIn?, Rule.ofName?_name, Option.bind_some, extract?_eq_lastDigits?,
        lastDigits?_eq_none_iff.2 nowhere, Option.bind_none]
  · have ascii : ∀ c ∈ Nat.toDigits 10 n, c.isDigit = true := fun c hc =>
      Nat.isDigit_of_mem_toDigits (by decide) (by decide) hc
    obtain ⟨here, last, run⟩ := rule.apart_phrase.last_number
      (List.append_assoc (front ++ rule.phrase) _ back) Nat.toDigits_ne_nil
      (fun c hc => isDecimalDigit_of_isDigit (ascii c hc)) ends none_
    rw [valueIn?_eq_some_iff here last, run]
    exact ⟨ascii, Nat.ofDigitChars_ten_toDigits, small⟩

/-- Of two numbers in a message the last one is found, whatever stands in front of it. -/
theorem value_of_last_number_twoNumbers :
    valueIn? "NPathComplexity" "cyclomatic complexity of 3".toList = none ∧
    (valueIn? "CyclomaticComplexity" ("cyclomatic complexity of 3 ... ".toList ++
      Rule.cyclomatic.phrase ++ Nat.toDigits 10 9 ++ ['.'])).map (·.val) = some 9 :=
  ⟨value_of_last_number.1 _ _ (by decide) (by decide),
    value_of_last_number.2.2 .cyclomatic 9 "cyclomatic complexity of 3 ... ".toList ['.']
      (by decide) (fun _ h => by cases h; rfl) (lastDigits?_eq_none_iff.1 rfl)⟩

end SuiteMetrics.Violations
