import Mathlib.Data.List.TakeDrop
import Mathlib.Data.List.TakeWhile
import SuiteMetrics.Proofs.TextParts
import SuiteMetrics.Xml.Event

/-!
Markup that has been read stays read.

The reader of markup goes through a text from its front and never looks beyond the bracket that
ends what it is reading. What it makes of the front of a text is then the same whatever follows:
such a reader is `Settled`. The events of a text come piece by piece from that
(`eventsFrom_data`, `eventsFrom_markup`), and a text cut short has fewer events than the whole,
save for a last piece of character data (`events_cutShort`).
-/

namespace SuiteMetrics

/-- A reader of the front of a text that gives the same result when the text goes on. -/
def Settled {α : Type} (read : List Char → Option (α × List Char)) : Prop :=
  ∀ ⦃s a rest⦄, read s = some (a, rest) → ∀ more, read (s ++ more) = some (a, rest ++ more)

theorem Settled.map {α β : Type} {read : List Char → Option (α × List Char)}
    (settled : Settled read) (f : α → β) : Settled fun s => (read s).map fun (a, r) => (f a, r) := by
  intro s b rest h more
  obtain ⟨⟨a, r⟩, found, same⟩ := Option.map_eq_some_iff.1 h
  obtain ⟨rfl, rfl⟩ := Prod.mk.inj same
  simp only [settled found more, Option.map_some]

namespace Xml

open Text (isMarkupBlank)

theorem mark_length_le_of_cutAt {mark s inside rest before : List Char}
    (h : cutAt.go mark before s = some (inside, rest)) : mark.length ≤ s.length := by
  induction s generalizing before with
  | nil => simp [cutAt.go] at h
  | cons c r ih =>
      rw [cutAt.go] at h
      split at h
      · rename_i here
        exact (List.isPrefixOf_iff_prefix.1 here).length_le
      · exact Nat.le_trans (ih h) (Nat.le_succ _)

theorem settled_cutAt (mark : List Char) : Settled (cutAt mark) := by
  suffices go : ∀ before, Settled (cutAt.go mark before) from go []
  intro before s inside rest h more
  induction s generalizing before with
  | nil => simp [cutAt.go] at h
  | cons c r ih =>
      have fits := mark_length_le_of_cutAt h
      -- a mark that only begins in the text would end before the one that was found begins
      have same : mark.isPrefixOf (c :: (r ++ more)) = mark.isPrefixOf (c :: r) := by
        rw [Bool.eq_iff_iff, List.isPrefixOf_iff_prefix, List.isPrefixOf_iff_prefix]
        exact ⟨fun found => List.prefix_of_prefix_length_le found
          (List.prefix_append (c :: r) more) fits, fun here => here.trans
          (List.prefix_append (c :: r) more)⟩
      rw [cutAt.go] at h
      rw [List.cons_append, cutAt.go, same]
      split at h
      · rename_i here
        obtain ⟨rfl, rfl⟩ := Prod.mk.inj (Option.some.inj h)
        rw [if_pos here, ← List.cons_append, List.drop_append_of_le_length fits]
      · rename_i there
        rw [if_neg there]
        exact ih _ h

theorem settled_cutTag (quote : Option Char) (before : List Char) :
    Settled (cutTag quote before) := by
  intro s inside rest h more
  induction s generalizing quote before with
  | nil => simp [cutTag] at h
  | cons c r ih =>
      cases quote with
      | some q => exact ih _ _ h
      | none =>
          simp only [cutTag, List.cons_append] at h ⊢
          split at h
          · rename_i closes
            obtain ⟨rfl, rfl⟩ := Prod.mk.inj (Option.some.inj h)
            rw [if_pos closes]
          · rename_i inner
            rw [if_neg inner]
            exact ih _ _ h

theorem settled_cutDocumentType (depth : Nat) (before : List Char) :
    Settled (cutDocumentType depth before) := by
  intro s inside rest h more
  induction s generalizing depth before with
  | nil => simp [cutDocumentType] at h
  | cons c r ih =>
      simp only [cutDocumentType, List.cons_append] at h ⊢
      by_cases opens : c = '<'
      · rw [if_pos opens] at h ⊢
        exact ih _ _ h
      · rw [if_neg opens] at h ⊢
        by_cases closes : c = '>'
        · rw [if_pos closes] at h ⊢
          split at h
          · rename_i outer
            obtain ⟨rfl, rfl⟩ := Prod.mk.inj (Option.some.inj h)
            rw [if_pos outer]
          · rename_i inner
            rw [if_neg inner]
            exact ih _ _ h
        · rw [if_neg closes] at h ⊢
          exact ih _ _ h

theorem startsWithWord_append {word s : List Char} (h : startsWithWord word s = true)
    (more : List Char) : startsWithWord word (s ++ more) = true := by
  simp only [startsWithWord, Bool.and_eq_true, decide_eq_true_eq] at h ⊢
  rw [List.take_append_of_le_length h.1, List.length_append]
  exact ⟨Nat.le_trans h.1 (Nat.le_add_right _ _), h.2⟩

theorem length_le_of_startsWithWord {word s : List Char} (h : startsWithWord word s = true) :
    word.length ≤ s.length := by
  simp only [startsWithWord, Bool.and_eq_true, decide_eq_true_eq] at h
  exact h.1

/-! ### The kinds of markup -/

section Kinds

attribute [local simp] markup?

theorem markup?_cdata {s : List Char} (word : startsWithWord "CDATA[".toList s = true) :
    markup? ('!' :: '[' :: s) =
      (cutAt [']', ']', '>'] (s.drop 6)).map fun (inside, r) => (.cdata inside, r) := by
  rw [markup?, if_pos word]

theorem markup?_documentType {s : List Char} (dash : ∀ r, s = '-' :: r → False)
    (bracket : ∀ r, s = '[' :: r → False) :
    markup? ('!' :: s) =
      if startsWithWord "DOCTYPE".toList s then
        (cutDocumentType 0 [] (s.drop 7)).bind fun (inside, r) =>
          if inside.all isMarkupBlank then none else some (.silent, r)
      else none := by
  rw [markup?]
  · split
    · cases cutDocumentType 0 [] (s.drop 7) <;> rfl
    · rfl
  · exact dash
  · exact bracket

theorem markup?_instruction {c : Char} {s : List Char} (hc : c ≠ '>') :
    markup? ('?' :: c :: s) = (cutAt ['?', '>'] (c :: s)).map fun (_, r) => (.silent, r) := by
  simp [hc]

theorem markup?_tag {c : Char} {s : List Char} (declaration : c ≠ '!') (end_ : c ≠ '/')
    (instruction : c ≠ '?') :
    markup? (c :: s) = (cutTag none [] (c :: s)).map fun (inside, r) => (tagEvent inside, r) := by
  simp [declaration, end_, instruction]

theorem markup?_documentType_append {s rest : List Char} {event : Event}
    (dash : ∀ r, s = '-' :: r → False) (bracket : ∀ r, s = '[' :: r → False)
    (h : markup? ('!' :: s) = some (event, rest)) (more : List Char) :
    markup? ('!' :: (s ++ more)) = some (event, rest ++ more) := by
  rw [markup?_documentType dash bracket] at h
  split at h
  · rename_i word
    obtain ⟨⟨inside, r⟩, cut, kept⟩ := Option.bind_eq_some_iff.1 h
    have fits : 7 ≤ s.length := length_le_of_startsWithWord word
    obtain ⟨c, s, rfl⟩ := List.exists_cons_of_length_pos (Nat.lt_of_lt_of_le (by decide) fits)
    rw [markup?_documentType (fun r same => dash s (by rw [(List.cons.inj same).1]))
      (fun r same => bracket s (by rw [(List.cons.inj same).1])),
      if_pos (startsWithWord_append word more), List.drop_append_of_le_length fits,
      settled_cutDocumentType _ _ cut more]
    by_cases blank : inside.all isMarkupBlank = true
    · simp [blank] at kept
    · simp only [if_neg blank] at kept
      obtain ⟨rfl, rfl⟩ := Prod.mk.inj (Option.some.inj kept)
      simp only [Option.bind_some, if_neg blank]
  · simp at h

theorem settled_markup? : Settled markup? := by
  intro s event rest h more
  fun_cases markup? s
  case case1 => simp at h
  case case2 r => exact (settled_cutAt ['-', '-', '>']).map (fun _ => Event.silent) h more
  case case3 => simp at h
  case case4 r word =>
      have fits : 6 ≤ r.length := length_le_of_startsWithWord word
      rw [markup?_cdata word] at h
      rw [List.cons_append, List.cons_append, markup?_cdata (startsWithWord_append word more),
        List.drop_append_of_le_length fits]
      exact (settled_cutAt [']', ']', '>']).map Event.cdata h more
  case case5 => simp_all
  case case6 | case7 | case8 | case9 =>
      exact markup?_documentType_append (by assumption) (by assumption) h more
  case case10 r =>
      exact (settled_cutTag none []).map (fun inside => Event.closing
        (if inside.all isMarkupBlank then inside
        else Text.dropEndWhile isMarkupBlank inside)) h more
  case case11 => simp at h
  case case12 r closes =>
      cases r with
      | nil => simp [cutAt, cutAt.go] at h
      | cons c r =>
          have hc : c ≠ '>' := fun same => closes r (by rw [same])
          rw [markup?_instruction hc] at h
          rw [List.cons_append, List.cons_append, markup?_instruction hc]
          exact (settled_cutAt ['?', '>']).map (fun _ => Event.silent) h more
  case case13 nonempty _ _ declaration end_ _ instruction =>
      cases s with
      | nil => exact absurd rfl nonempty
      | cons c r =>
          have hd : c ≠ '!' := fun same => declaration r (by rw [same])
          have he : c ≠ '/' := fun same => end_ r (by rw [same])
          have hi : c ≠ '?' := fun same => instruction r (by rw [same])
          rw [markup?_tag hd he hi] at h
          rw [List.cons_append, markup?_tag hd he hi]
          exact (settled_cutTag none []).map tagEvent h more

end Kinds

/-! ### Events -/

attribute [local simp] eventsFrom

/-- The events of a piece of character data: none when all of it is blank. -/
def dataEvents (data : List Char) : List Event :=
  let piece := Text.trimBy isMarkupBlank data
  if piece.isEmpty then [] else [.text piece]

theorem dataEvents_eq_nil_iff {data : List Char} :
    dataEvents data = [] ↔ ∀ c ∈ data, isMarkupBlank c = true := by
  rw [← Text.trimBy_eq_nil_iff, dataEvents]
  split <;> simp_all

section Data

variable {data : List Char} (plain : '<' ∉ data)
include plain

theorem no_bracket_of_mem {c : Char} (hc : c ∈ data) : (c != '<') = true := by
  rw [bne_iff_ne]
  rintro rfl
  exact plain hc

theorem span_of_data (s : List Char) : (data ++ '<' :: s).span (· != '<') = (data, '<' :: s) := by
  rw [List.span_eq_takeWhile_dropWhile,
    List.takeWhile_append_of_pos fun _ => no_bracket_of_mem plain,
    List.dropWhile_append_of_pos fun _ => no_bracket_of_mem plain]
  simp

theorem eventsFrom_data (fuel : Nat) (names : List (List Char)) :
    eventsFrom (fuel + 1) names data = ⟨dataEvents data, true⟩ := by
  have whole : data.span (· != '<') = (data, []) := by
    rw [List.span_eq_takeWhile_dropWhile,
      List.takeWhile_eq_self_iff.2 fun _ => no_bracket_of_mem plain,
      List.dropWhile_eq_nil_iff.2 fun _ => no_bracket_of_mem plain]
  simp only [eventsFrom, whole, dataEvents]

theorem eventsFrom_markup {s r : List Char} {event : Event} {names inner : List (List Char)}
    (read : markup? s = some (event, r)) (fits : openAfter? names event = some inner)
    (fuel : Nat) :
    eventsFrom (fuel + 1) names (data ++ '<' :: s) =
      ⟨dataEvents data ++ event :: (eventsFrom fuel inner r).events,
        (eventsFrom fuel inner r).complete⟩ := by
  simp only [eventsFrom, span_of_data plain, read, fits, dataEvents]

/-- A text that is read to its end was read across its first markup. -/
theorem markup_of_complete {s : List Char} {names : List (List Char)} {fuel : Nat}
    (h : (eventsFrom (fuel + 1) names (data ++ '<' :: s)).complete = true) :
    ∃ event r inner, markup? s = some (event, r) ∧ openAfter? names event = some inner ∧
      (eventsFrom fuel inner r).complete = true := by
  simp only [eventsFrom, span_of_data plain] at h
  split at h
  · simp at h
  · rename_i event r read
    split at h
    · simp at h
    · rename_i inner fits
      exact ⟨event, r, inner, read, fits, h⟩

end Data

/-- A text is character data, or it is character data and then markup. -/
theorem data_or_markup (s : List Char) :
    '<' ∉ s ∨ ∃ data r, '<' ∉ data ∧ s = data ++ '<' :: r := by
  by_cases h : '<' ∈ s
  · obtain ⟨data, r, rfl, plain⟩ := List.eq_append_cons_of_mem h
    exact .inr ⟨data, r, plain, rfl⟩
  · exact .inl h

/-! ### Texts cut short -/

/-- A text that ends with a bracket is no blank. -/
theorem events_ne_nil {s : List Char} {names : List (List Char)} {fuel : Nat}
    (h : (eventsFrom fuel names s).complete = true) (last : s.getLast? = some '>') :
    (eventsFrom fuel names s).events ≠ [] := by
  cases fuel with
  | zero => simp at h
  | succ fuel =>
      obtain plain | ⟨data, r, plain, rfl⟩ := data_or_markup s
      · rw [eventsFrom_data plain]
        intro blank
        have := dataEvents_eq_nil_iff.1 blank '>' (List.mem_of_getLast? last)
        simp [isMarkupBlank] at this
      · obtain ⟨event, r', inner, read, fits, -⟩ := markup_of_complete plain h
        rw [eventsFrom_markup plain read fits]
        simp

/-- What the events of a text and of its front have in common: all events of the front, save for
a last piece of character data, and the text has at least one event more. -/
theorem eventsFrom_cutShort {front back : List Char} {names : List (List Char)} {fuel fuel' : Nat}
    (whole : (eventsFrom fuel' names (front ++ back)).complete = true)
    (last : back.getLast? = some '>')
    (cut : (eventsFrom fuel names front).complete = true) :
    ∃ read data next later, (eventsFrom fuel names front).events = read ++ dataEvents data ∧
      (eventsFrom fuel' names (front ++ back)).events = read ++ next :: later := by
  induction fuel generalizing fuel' names front with
  | zero => simp at cut
  | succ fuel ih =>
      obtain plain | ⟨data, r, plain, rfl⟩ := data_or_markup front
      · have last' : (front ++ back).getLast? = some '>' := by
          simp [List.getLast?_append, last]
        obtain ⟨next, later, same⟩ := List.exists_cons_of_ne_nil (events_ne_nil whole last')
        refine ⟨[], front, next, later, ?_, same⟩
        rw [eventsFrom_data plain]
        rfl
      · obtain ⟨event, r', inner, read, fits, rest⟩ := markup_of_complete plain cut
        cases fuel' with
        | zero => simp at whole
        | succ fuel' =>
            have read' := settled_markup? read back
            rw [List.append_assoc, List.cons_append] at whole ⊢
            rw [eventsFrom_markup plain read' fits] at whole ⊢
            rw [eventsFrom_markup plain read fits]
            obtain ⟨before, data', next, later, short, long⟩ := ih whole rest
            refine ⟨dataEvents data ++ event :: before, data', next, later, ?_, ?_⟩
            · simp [short]
            · simp [long]

/-- A text without the byte order mark that may come first. -/
def afterMark : List Char → List Char
  | '\ufeff' :: r => r
  | s => s

theorem events_eq (s : List Char) :
    events s = eventsFrom ((afterMark s).length + 1) [] (afterMark s) := rfl

theorem afterMark_append (front : List Char) {back : List Char} (last : back.getLast? = some '>') :
    ∃ back' : List Char, afterMark (front ++ back) = afterMark front ++ back' ∧
      back'.getLast? = some '>' := by
  cases front with
  | nil =>
      refine ⟨afterMark back, rfl, ?_⟩
      unfold afterMark
      split
      · rename_i r
        cases r with
        | nil => simp at last
        | cons c r => simpa [List.getLast?_cons_cons] using last
      · exact last
  | cons c r =>
      refine ⟨back, ?_, last⟩
      by_cases mark : c = '\ufeff'
      · subst mark
        rfl
      · simp [afterMark, mark]

theorem events_cutShort {front back : List Char}
    (whole : (events (front ++ back)).complete = true) (last : back.getLast? = some '>')
    (cut : (events front).complete = true) :
    ∃ read data next later, (events front).events = read ++ dataEvents data ∧
      (events (front ++ back)).events = read ++ next :: later := by
  obtain ⟨back', same, last'⟩ := afterMark_append front last
  rw [events_eq, same] at whole
  rw [events_eq] at cut
  rw [events_eq, events_eq, same]
  exact eventsFrom_cutShort whole last' cut

end Xml

end SuiteMetrics
