import SuiteMetrics.Proofs.JsonSteps
import SuiteMetrics.Proofs.SettledMarkup

/-!
JSON that has been read stays read.

The readers of strings and words are settled. A number is not, since more digits may follow it: it
has to end where it does, either with something left behind it or because what follows cannot
continue it (`Ends`). Strings, arrays and objects end by themselves. More fuel changes nothing
either; with both in one statement (`Extends`) the induction on the fuel goes through
(`extends_all`).
-/

namespace SuiteMetrics.Json

open Decimal (isDigit spanDigits)

/-! ### Strings -/

section Strings

variable {read : Option (List Char)} {r : List Char}

/-- Where a string goes on without another unit, it does so whatever follows the string. -/
theorem no_unit_append {p : Option (List Char) × List Char} (found : readChars read r = some p)
    (alone : ∀ e f g h s, r = '\\' :: 'u' :: e :: f :: g :: h :: s → False) (more : List Char) :
    ∀ e f g h s, r ++ more = '\\' :: 'u' :: e :: f :: g :: h :: s → False := by
  intro e f g h s same
  obtain _ | ⟨c₁, _ | ⟨c₂, _ | ⟨c₃, _ | ⟨c₄, _ | ⟨c₅, _ | ⟨c₆, r⟩⟩⟩⟩⟩⟩ := r
  case nil => simp [readChars] at found
  case cons.cons.cons.cons.cons.cons =>
      obtain ⟨rfl, rfl⟩ : c₁ = '\\' ∧ c₂ = 'u' := by simp_all
      exact alone _ _ _ _ _ rfl
  case cons.nil =>
      obtain rfl : c₁ = '\\' := by simp_all
      simp [readChars] at found
  all_goals
    obtain ⟨rfl, rfl⟩ : c₁ = '\\' ∧ c₂ = 'u' := by simp_all
    simp [readChars, escaped?] at found

theorem settled_readChars (read : Option (List Char)) : Settled (readChars read) := by
  intro s text rest found more
  fun_induction readChars read s
  case case1 | case6 | case9 | case11 | case12 => simp at found
  case case2 =>
      obtain ⟨rfl, rfl⟩ := Prod.mk.inj (Option.some.inj found)
      rw [List.cons_append, readChars]
  case case3 read a b c d e f g h r high low second first pair ih =>
      rw [Bool.and_eq_true] at pair
      simp only [List.cons_append]
      rw [readChars_pair first second pair.1 pair.2]
      exact ih found
  case case4 read a b c d e f g h r high low second first unpaired half ih =>
      simp only [List.cons_append]
      rw [readChars, first, second]
      simp only [if_neg unpaired, if_pos half]
      exact ih found
  case case5 read a b c d e f g h r high low second first unpaired whole ih =>
      simp only [List.cons_append]
      rw [readChars, first, second]
      simp only [if_neg unpaired, if_neg whole]
      exact ih found
  case case7 read a b c d r alone unit units half ih =>
      simp only [List.cons_append]
      rw [readChars_single units (no_unit_append found alone more), if_pos half]
      exact ih found
  case case8 read a b c d r alone unit units whole ih =>
      simp only [List.cons_append]
      rw [readChars_single units (no_unit_append found alone more), if_neg whole]
      exact ih found
  case case10 read c r _ _ replaced known ih =>
      rw [List.cons_append, List.cons_append, readChars_escape known]
      exact ih found
  case case13 read c r quote _ _ escape control ih =>
      have plain : c ≠ '\\' := by
        rintro rfl
        cases r with
        | nil => simp [readChars] at found
        | cons d r => exact escape d r rfl rfl
      rw [List.cons_append, readChars_plain quote plain control]
      exact ih found

theorem settled_readString : Settled readString := by
  intro s text rest found more
  exact (settled_readChars (some [])).map (Option.map String.ofList) found more

end Strings

/-! ### Numbers -/

/-- Whether a number may go on with a character. -/
def continuesNumber (c : Char) : Bool := isDigit c || c == '.' || c == 'e' || c == 'E'

/-- A number whose reader left the text `r` ends there when `more` follows. -/
def Ends (r more : List Char) : Prop :=
  r ≠ [] ∨ ∀ c, more.head? = some c → continuesNumber c = false

theorem Ends.elim {r more : List Char} (h : Ends r more) (nothing : r = []) {c : Char}
    {rest : List Char} (same : more = c :: rest) :
    isDigit c = false ∧ c ≠ '.' ∧ ¬ (c = 'e' ∨ c = 'E') := by
  obtain some_ | stops := h
  · exact absurd nothing some_
  · have := stops c (by rw [same]; rfl)
    simpa [continuesNumber, and_assoc] using this

theorem spanDigits_append {s digits r more : List Char} (found : spanDigits s = (digits, r))
    (ends : Ends r more) : spanDigits (s ++ more) = (digits, r ++ more) := by
  simp only [spanDigits, List.span_eq_takeWhile_dropWhile] at found ⊢
  obtain ⟨rfl, rfl⟩ := Prod.mk.inj found
  cases rest : s.dropWhile isDigit with
  | cons c r =>
      have stops : ¬ (s.dropWhile isDigit).isEmpty = true := by simp [rest]
      rw [List.dropWhile_append, if_neg stops, rest, List.takeWhile_append, if_neg]
      intro all
      have whole : s.takeWhile isDigit = s := (List.takeWhile_prefix isDigit).eq_of_length all
      have := List.dropWhile_eq_nil_iff.2 (List.takeWhile_eq_self_iff.1 whole)
      simp [this] at rest
  | nil =>
      have all := List.dropWhile_eq_nil_iff.1 rest
      rw [List.takeWhile_append_of_pos all, List.dropWhile_append_of_pos all,
        List.takeWhile_eq_self_iff.2 all]
      cases more with
      | nil => simp
      | cons c more => simp [(ends.elim rest rfl).1]

theorem readFraction_other {c : Char} {s : List Char} (point : c ≠ '.') :
    readFraction (c :: s) = some (none, c :: s) := by
  simp [readFraction, point]

theorem readFraction_append {s r more : List Char} {fraction : Option (List Char)}
    (found : readFraction s = some (fraction, r)) (ends : Ends r more) :
    readFraction (s ++ more) = some (fraction, r ++ more) := by
  cases s with
  | nil =>
      obtain ⟨rfl, rfl⟩ := Prod.mk.inj (Option.some.inj found)
      cases more with
      | nil => rfl
      | cons c more => exact readFraction_other (ends.elim rfl rfl).2.1
  | cons c s =>
      by_cases point : c = '.'
      · subst point
        simp only [readFraction, List.cons_append] at found ⊢
        generalize cut : spanDigits s = p at found
        obtain ⟨digits, rest⟩ := p
        split at found
        · simp at found
        · rename_i some_
          obtain ⟨rfl, rfl⟩ := Prod.mk.inj (Option.some.inj found)
          rw [spanDigits_append cut ends]
          simp [some_]
      · rw [readFraction_other point] at found
        obtain ⟨rfl, rfl⟩ := Prod.mk.inj (Option.some.inj found)
        exact readFraction_other point

theorem takeSign_append {c : Char} {s : List Char} (more : List Char) :
    Decimal.takeSign (c :: s ++ more) =
      ((Decimal.takeSign (c :: s)).1, (Decimal.takeSign (c :: s)).2 ++ more) := by
  by_cases minus : c = '-'
  · subst minus
    rfl
  · by_cases plus : c = '+'
    · subst plus
      rfl
    · simp [Decimal.takeSign, minus, plus]

theorem readExponent_other {c : Char} {s : List Char} (mark : ¬ (c = 'e' ∨ c = 'E')) :
    readExponent (c :: s) = some (none, c :: s) := by
  rw [readExponent, if_neg mark]

theorem readExponent_append {s r more : List Char} {exponent : Option Int}
    (found : readExponent s = some (exponent, r)) (ends : Ends r more) :
    readExponent (s ++ more) = some (exponent, r ++ more) := by
  cases s with
  | nil =>
      obtain ⟨rfl, rfl⟩ := Prod.mk.inj (Option.some.inj found)
      cases more with
      | nil => rfl
      | cons c more => exact readExponent_other (ends.elim rfl rfl).2.2
  | cons c s =>
      by_cases mark : c = 'e' ∨ c = 'E'
      · simp only [readExponent, List.cons_append, if_pos mark] at found ⊢
        cases s with
        | nil => simp [Decimal.takeSign, spanDigits] at found
        | cons d s =>
            rw [takeSign_append]
            generalize cut : spanDigits (Decimal.takeSign (d :: s)).2 = p at found
            obtain ⟨digits, rest⟩ := p
            simp only at found
            split at found
            · simp at found
            · rename_i some_
              obtain ⟨rfl, rfl⟩ := Prod.mk.inj (Option.some.inj found)
              simp only [spanDigits_append cut ends, if_neg some_]
      · rw [readExponent_other mark] at found
        obtain ⟨rfl, rfl⟩ := Prod.mk.inj (Option.some.inj found)
        exact readExponent_other mark

/-- The digits, fraction and exponent of a number whose sign is known. -/
def readUnsigned (negative : Bool) (s : List Char) : Option (Literal × List Char) :=
  let (whole, r) := spanDigits s
  if whole.isEmpty || (whole.head? = some '0' && whole.length > 1) then none
  else
    (readFraction r).bind fun (fraction, r) =>
      (readExponent r).map fun (exponent, r) => (⟨negative, whole, fraction, exponent⟩, r)

theorem readNumber_minus (s : List Char) : readNumber ('-' :: s) = readUnsigned true s := by
  simp only [readNumber, readUnsigned]
  split
  · rfl
  · simp only [Option.bind_eq_bind, Option.pure_def, Option.map_eq_bind, Function.comp_def]

theorem readNumber_unsigned {c : Char} (plain : c ≠ '-') (s : List Char) :
    readNumber (c :: s) = readUnsigned false (c :: s) := by
  simp only [readNumber, readUnsigned]
  split
  · rename_i same
    exact absurd (List.cons.inj same).1 plain
  · split
    · rfl
    · simp only [Option.bind_eq_bind, Option.pure_def, Option.map_eq_bind, Function.comp_def]

theorem readUnsigned_append {negative : Bool} {s r more : List Char} {n : Literal}
    (found : readUnsigned negative s = some (n, r)) (ends : Ends r more) :
    readUnsigned negative (s ++ more) = some (n, r ++ more) := by
  unfold readUnsigned at found ⊢
  generalize cut : spanDigits s = p at found
  obtain ⟨whole, r₁⟩ := p
  simp only at found
  split at found
  · simp at found
  · rename_i wellFormed
    obtain ⟨⟨fraction, r₂⟩, point, found⟩ := Option.bind_eq_some_iff.1 found
    obtain ⟨⟨exponent, r₃⟩, mark, same⟩ := Option.map_eq_some_iff.1 found
    obtain ⟨rfl, rfl⟩ := Prod.mk.inj same
    have ends₂ : Ends r₂ more := by
      refine ends.imp_left fun some_ => ?_
      rintro rfl
      exact some_ (by simp_all [readExponent])
    have ends₁ : Ends r₁ more := by
      refine ends₂.imp_left fun some_ => ?_
      rintro rfl
      exact some_ (by simp_all [readFraction])
    simp only [spanDigits_append cut ends₁, if_neg wellFormed, readFraction_append point ends₂,
      readExponent_append mark ends, Option.bind_some, Option.map_some]

theorem readNumber_append {s r more : List Char} {n : Literal}
    (found : readNumber s = some (n, r)) (ends : Ends r more) :
    readNumber (s ++ more) = some (n, r ++ more) := by
  cases s with
  | nil => simp [readNumber, spanDigits] at found
  | cons c s =>
      by_cases minus : c = '-'
      · subst minus
        rw [readNumber_minus] at found
        rw [List.cons_append, readNumber_minus]
        exact readUnsigned_append found ends
      · rw [readNumber_unsigned minus] at found
        rw [List.cons_append, readNumber_unsigned minus]
        exact readUnsigned_append found ends

theorem skipBlanks_append {s r : List Char} {c : Char} (front : skipBlanks s = c :: r)
    (more : List Char) : skipBlanks (s ++ more) = c :: (r ++ more) := by
  unfold skipBlanks at front ⊢
  rw [List.dropWhile_append, front]
  rfl

theorem settled_readWord (word : String) (d : Document) : Settled (readWord word d) := by
  intro s d' rest found more
  unfold readWord at found ⊢
  split at found
  · rename_i here
    obtain ⟨rfl, rfl⟩ := Prod.mk.inj (Option.some.inj found)
    rw [List.isPrefixOf_iff_prefix] at here
    have there := here.trans (List.prefix_append s more)
    rw [if_pos (List.isPrefixOf_iff_prefix.2 there),
      List.drop_append_of_le_length (String.length_toList ▸ here.length_le)]
  · simp at found

/-! ### Values -/

/-- What the readers make of a text with some fuel they also make with more fuel and more text,
except for numbers that more digits would change. -/
structure Extends (fuel : Nat) : Prop where
  value {s r : List Char} {d : Document} : readValue fuel s = some (d, r) →
    ∀ {fuel' : Nat}, fuel ≤ fuel' → ∀ more : List Char, (∀ n, d = .number n → Ends r more) →
      readValue fuel' (s ++ more) = some (d, r ++ more)
  items {s r : List Char} {items : List Document} : readItems fuel s = some (items, r) →
    ∀ {fuel' : Nat}, fuel ≤ fuel' → ∀ more : List Char,
      readItems fuel' (s ++ more) = some (items, r ++ more)
  fields {s r : List Char} {fields : List (Option String × Document)} :
    readFields fuel s = some (fields, r) → ∀ {fuel' : Nat}, fuel ≤ fuel' → ∀ more : List Char,
      readFields fuel' (s ++ more) = some (fields, r ++ more)

section Elements

variable {α : Type} {close : Char} {later later' : List Char → Option (List α × List Char)}
  {s r : List Char} {all : List α} (more : List Char)
  (extends_ : ∀ {s r all}, later s = some (all, r) → later' (s ++ more) = some (all, r ++ more))
include extends_

theorem readOpened_append (nothing : later [] = none)
    (found : readOpened close later s = some (all, r)) :
    readOpened close later' (s ++ more) = some (all, r ++ more) := by
  unfold readOpened at found ⊢
  cases front : skipBlanks s with
  | nil => simp [front, nothing] at found
  | cons c s' =>
      simp only [front] at found
      simp only [skipBlanks_append front more]
      split at found
      · rename_i closes
        obtain ⟨rfl, rfl⟩ := Prod.mk.inj (Option.some.inj found)
        rw [if_pos closes]
      · rename_i open_
        rw [if_neg open_, ← List.cons_append]
        exact extends_ found

theorem readRest_append {first : α} (found : readRest close later first s = some (all, r)) :
    readRest close later' first (s ++ more) = some (all, r ++ more) := by
  unfold readRest at found ⊢
  cases front : skipBlanks s with
  | nil => simp [front] at found
  | cons c s' =>
      simp only [front] at found
      simp only [skipBlanks_append front more]
      split at found
      · rename_i comma
        obtain ⟨⟨others, rest⟩, read, same⟩ := Option.map_eq_some_iff.1 found
        obtain ⟨rfl, rfl⟩ := Prod.mk.inj same
        rw [if_pos comma, extends_ read, Option.map_some]
      · rename_i comma
        rw [if_neg comma]
        split at found
        · rename_i closes
          obtain ⟨rfl, rfl⟩ := Prod.mk.inj (Option.some.inj found)
          rw [if_pos closes]
        · simp at found

end Elements

theorem ne_nil_of_readRest {α : Type} {close : Char}
    {later : List Char → Option (List α × List Char)} {first : α} {s : List Char} {p : List α × List Char}
    (found : readRest close later first s = some p) : s ≠ [] := by
  rintro rfl
  simp [readRest, skipBlanks] at found

section Step

variable {fuel fuel' : Nat} (ih : Extends fuel) (le : fuel ≤ fuel') {s r : List Char}
  (more : List Char)
include ih le

theorem readValue_append_succ {d : Document} (found : readValue (fuel + 1) s = some (d, r))
    (ends : ∀ n, d = .number n → Ends r more) :
    readValue (fuel' + 1) (s ++ more) = some (d, r ++ more) := by
  cases front : skipBlanks s with
  | nil => simp [readValue_blank front] at found
  | cons c s' =>
      have front' := skipBlanks_append front more
      obtain rfl | rfl | rfl | rfl | rfl | rfl | number := value_begins c
      · rw [readValue_string front] at found
        rw [readValue_string front']
        exact settled_readString.map Document.string found more
      · rw [readValue_array front] at found
        rw [readValue_array front']
        obtain ⟨⟨items, rest⟩, read, same⟩ := Option.map_eq_some_iff.1 found
        obtain ⟨rfl, rfl⟩ := Prod.mk.inj same
        rw [readOpened_append more (fun found => ih.items found le more) (readItems_blank rfl) read]
        rfl
      · rw [readValue_object front] at found
        rw [readValue_object front']
        obtain ⟨⟨fields, rest⟩, read, same⟩ := Option.map_eq_some_iff.1 found
        obtain ⟨rfl, rfl⟩ := Prod.mk.inj same
        rw [readOpened_append more (fun found => ih.fields found le more) (readFields_blank rfl)
          read]
        rfl
      · rw [readValue_null front] at found
        rw [readValue_null front']
        exact settled_readWord _ _ found more
      · rw [readValue_true front] at found
        rw [readValue_true front']
        exact settled_readWord _ _ found more
      · rw [readValue_false front] at found
        rw [readValue_false front']
        exact settled_readWord _ _ found more
      · rw [readValue_number front number] at found
        rw [readValue_number front' number]
        obtain ⟨⟨n, rest⟩, read, same⟩ := Option.map_eq_some_iff.1 found
        obtain ⟨rfl, rfl⟩ := Prod.mk.inj same
        rw [← List.cons_append, readNumber_append read (ends n rfl)]
        rfl

theorem readItems_append_succ {items : List Document}
    (found : readItems (fuel + 1) s = some (items, r)) :
    readItems (fuel' + 1) (s ++ more) = some (items, r ++ more) := by
  rw [readItems_succ] at found ⊢
  obtain ⟨⟨item, r₁⟩, read, rest⟩ := Option.bind_eq_some_iff.1 found
  rw [ih.value read le more fun _ _ => .inl (ne_nil_of_readRest rest), Option.bind_some]
  exact readRest_append more (fun found => ih.items found le more) rest

theorem readField_append {field : Option String × Document}
    (found : readField fuel s = some (field, r)) (goesOn : r ≠ []) :
    readField fuel' (s ++ more) = some (field, r ++ more) := by
  unfold readField at found ⊢
  split at found
  · rename_i r₁ front
    obtain ⟨⟨key, r₂⟩, read, found⟩ := Option.bind_eq_some_iff.1 found
    simp only [skipBlanks_append front, settled_readString read more, Option.bind_some] at found ⊢
    split at found
    · rename_i r₃ front
      obtain ⟨⟨value, r₄⟩, read, same⟩ := Option.map_eq_some_iff.1 found
      obtain ⟨rfl, rfl⟩ := Prod.mk.inj same
      simp only [skipBlanks_append front, ih.value read le more fun _ _ => .inl goesOn,
        Option.map_some]
    · simp at found
  · simp at found

theorem readFields_append_succ {fields : List (Option String × Document)}
    (found : readFields (fuel + 1) s = some (fields, r)) :
    readFields (fuel' + 1) (s ++ more) = some (fields, r ++ more) := by
  rw [readFields_succ] at found ⊢
  obtain ⟨⟨field, r₁⟩, read, rest⟩ := Option.bind_eq_some_iff.1 found
  rw [readField_append ih le more read (ne_nil_of_readRest rest), Option.bind_some]
  exact readRest_append more (fun found => ih.fields found le more) rest

end Step

theorem extends_all (fuel : Nat) : Extends fuel := by
  induction fuel with
  | zero =>
      exact ⟨fun found => by simp [readValue_zero] at found,
        fun found => by simp [readItems_zero] at found,
        fun found => by simp [readFields_zero] at found⟩
  | succ fuel ih =>
      constructor
      case value =>
          intro s r d found fuel' le more ends
          obtain ⟨fuel', rfl⟩ := Nat.exists_eq_add_one_of_ne_zero (by omega : fuel' ≠ 0)
          exact readValue_append_succ ih (by omega) more found ends
      case items =>
          intro s r items found fuel' le more
          obtain ⟨fuel', rfl⟩ := Nat.exists_eq_add_one_of_ne_zero (by omega : fuel' ≠ 0)
          exact readItems_append_succ ih (by omega) more found
      case fields =>
          intro s r fields found fuel' le more
          obtain ⟨fuel', rfl⟩ := Nat.exists_eq_add_one_of_ne_zero (by omega : fuel' ≠ 0)
          exact readFields_append_succ ih (by omega) more found

end SuiteMetrics.Json
