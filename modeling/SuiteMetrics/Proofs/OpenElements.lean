import SuiteMetrics.Proofs.SettledMarkup
import SuiteMetrics.Violations.Report

/-!
Open elements.

The start tags of a list of events less its end tags are its `excess`. The reader of events takes
an end tag only where an element is open (`closesOnlyOpen_events`), and the depth that the reader
of reports keeps grows by the excess of what it reads (`depth_of_run`).
-/

namespace SuiteMetrics.Xml

/-! ### Start tags and end tags -/

/-- What an event adds to the number of open elements. -/
def Event.weight : Event → Int
  | .opening _ _ => 1
  | .closing _ => -1
  | _ => 0

/-- The number of start tags less the number of end tags. -/
def excess : List Event → Int
  | [] => 0
  | e :: es => e.weight + excess es

@[simp] theorem excess_nil : excess [] = 0 := rfl

@[simp] theorem excess_cons (e : Event) (es : List Event) :
    excess (e :: es) = e.weight + excess es := rfl

@[simp] theorem excess_append (es es' : List Event) :
    excess (es ++ es') = excess es + excess es' := by
  induction es with
  | nil => simp
  | cons e es ih => simp [ih, Int.add_assoc]

@[simp] theorem excess_dataEvents (data : List Char) : excess (dataEvents data) = 0 := by
  simp only [dataEvents]
  split <;> rfl

theorem weight_of_mem_dataEvents {data : List Char} {e : Event} (h : e ∈ dataEvents data) :
    e.weight = 0 := by
  simp only [dataEvents] at h
  split at h
  · simp at h
  · rw [List.mem_singleton.1 h]
    rfl

/-- With `depth` elements open, an end tag stands only where an element is open. -/
def ClosesOnlyOpen (depth : Int) : List Event → Prop
  | [] => True
  | e :: es => 0 ≤ depth + e.weight ∧ ClosesOnlyOpen (depth + e.weight) es

instance decidableClosesOnlyOpen : (depth : Int) → (es : List Event) →
    Decidable (ClosesOnlyOpen depth es)
  | _, [] => .isTrue trivial
  | depth, e :: es =>
    have := decidableClosesOnlyOpen (depth + e.weight) es
    inferInstanceAs (Decidable (0 ≤ depth + e.weight ∧ ClosesOnlyOpen (depth + e.weight) es))

theorem closesOnlyOpen_append {depth : Int} {es es' : List Event} :
    ClosesOnlyOpen depth (es ++ es') ↔
      ClosesOnlyOpen depth es ∧ ClosesOnlyOpen (depth + excess es) es' := by
  induction es generalizing depth with
  | nil => simp [ClosesOnlyOpen]
  | cons e es ih =>
      simp only [List.cons_append, ClosesOnlyOpen, ih, excess_cons, and_assoc, Int.add_assoc]

theorem ClosesOnlyOpen.nonneg {depth : Int} {es : List Event} (h : ClosesOnlyOpen depth es)
    (start : 0 ≤ depth) : 0 ≤ depth + excess es := by
  induction es generalizing depth with
  | nil => simpa using start
  | cons e es ih =>
      have := ih h.2 h.1
      rw [excess_cons]
      omega

theorem closesOnlyOpen_dataEvents {depth : Int} (data : List Char) (start : 0 ≤ depth) :
    ClosesOnlyOpen depth (dataEvents data) := by
  simp only [dataEvents]
  split
  · trivial
  · exact ⟨by simpa [Event.weight] using start, trivial⟩

theorem length_openAfter? {names inner : List (List Char)} {e : Event}
    (h : openAfter? names e = some inner) : (inner.length : Int) = names.length + e.weight := by
  cases e with
  | opening name attributes =>
      obtain rfl := Option.some.inj h
      simp [Event.weight]
  | closing name =>
      cases names with
      | nil => simp [openAfter?] at h
      | cons open_ rest =>
          simp only [openAfter?] at h
          split at h
          · obtain rfl := Option.some.inj h
            simp only [Event.weight, List.length_cons]
            omega
          · simp at h
  | empty | text | cdata | silent =>
      obtain rfl := Option.some.inj h
      simp [Event.weight]

/-- The reader of events takes an end tag only where an element is open. -/
theorem closesOnlyOpen_eventsFrom (fuel : Nat) (names : List (List Char)) (s : List Char) :
    ClosesOnlyOpen names.length (eventsFrom fuel names s).events := by
  induction fuel generalizing names s with
  | zero => trivial
  | succ fuel ih =>
      have alone (data : List Char) : ClosesOnlyOpen names.length (dataEvents data) :=
        closesOnlyOpen_dataEvents data (by omega)
      obtain plain | ⟨data, r, plain, rfl⟩ := data_or_markup s
      · rw [eventsFrom_data plain]
        exact alone s
      · cases read : markup? r with
        | none =>
            simp only [eventsFrom, span_of_data plain, read]
            exact alone data
        | some p =>
            obtain ⟨e, r'⟩ := p
            cases fits : openAfter? names e with
            | none =>
                simp only [eventsFrom, span_of_data plain, read, fits]
                exact alone data
            | some inner =>
                have after := length_openAfter? fits
                rw [eventsFrom_markup plain read fits, closesOnlyOpen_append, excess_dataEvents,
                  Int.add_zero]
                refine ⟨alone data, by omega, ?_⟩
                rw [← after]
                exact ih inner r'

theorem closesOnlyOpen_events (s : List Char) : ClosesOnlyOpen 0 (events s).events :=
  closesOnlyOpen_eventsFrom _ [] _

end SuiteMetrics.Xml

namespace SuiteMetrics.Violations.Reading

open Xml (excess ClosesOnlyOpen)

/-! ### The depth of a reading -/

theorem depth_finish (r : Reading) : r.finish.depth = r.depth := by
  unfold finish
  split <;> rfl

theorem depth_of_step? {r r' : Reading} {e : Xml.Event} (h : r.step? e = some r')
    (closes : 0 ≤ r.depth + e.weight) : (r'.depth : Int) = r.depth + e.weight := by
  cases e with
  | opening name attributes =>
      simp only [step?] at h
      split at h
      · obtain ⟨file, -, same⟩ := Option.bind_eq_some_iff.1 h
        obtain rfl := Option.some.inj same
        rfl
      · obtain ⟨rule, -, same⟩ := Option.bind_eq_some_iff.1 h
        obtain rfl := Option.some.inj same
        rfl
      · obtain rfl := Option.some.inj h
        rfl
  | closing name =>
      have depth : ((r.depth - 1 : Nat) : Int) = r.depth + Xml.Event.weight (.closing name) := by
        simp only [Xml.Event.weight] at closes ⊢
        omega
      simp only [step?] at h
      split at h
      · obtain rfl := Option.some.inj h
        rw [depth_finish]
        exact depth
      · obtain rfl := Option.some.inj h
        exact depth
      · obtain rfl := Option.some.inj h
        exact depth
  | text raw =>
      simp only [step?] at h
      split at h
      · obtain rfl := Option.some.inj h
        simp [Xml.Event.weight]
      · obtain ⟨more, -, rfl⟩ := Option.map_eq_some_iff.1 h
        simp [Xml.Event.weight, append]
  | cdata raw =>
      obtain rfl := Option.some.inj h
      simp [Xml.Event.weight, append]
  | empty | silent =>
      obtain rfl := Option.some.inj h
      simp [Xml.Event.weight]

theorem depth_of_run {es : List Xml.Event} {r r' : Reading} (h : es.foldlM step? r = some r')
    (closes : ClosesOnlyOpen r.depth es) : (r'.depth : Int) = r.depth + excess es := by
  induction es generalizing r with
  | nil =>
      obtain rfl := Option.some.inj h
      simp
  | cons e es ih =>
      rw [List.foldlM_cons] at h
      obtain ⟨next, step, rest⟩ := Option.bind_eq_some_iff.1 h
      have depth := depth_of_step? step closes.1
      rw [ih rest (by rw [depth]; exact closes.2), depth, Xml.excess_cons, Int.add_assoc]

end SuiteMetrics.Violations.Reading
