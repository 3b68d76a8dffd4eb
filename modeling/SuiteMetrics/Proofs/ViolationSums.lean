import Mathlib.Algebra.GroupWithZero.Nat
import Mathlib.Data.List.Induction
import Mathlib.Data.Prod.Lex
import Mathlib.Data.String.Basic
import SuiteMetrics.Proofs.Ascending
import SuiteMetrics.Proofs.Truncation

/-!
The sums of a report.

A report keeps one sum for every file and rule, and a metric's total is a sum of these sums. All of
them stop at a limit. Whatever is read off the kept sums grows with every value that concerns it
and with no other, so it is one cut of the exact sum of these values, and nothing where there are
none (`cutSum?_of_growing`). Hence the sum of a file and rule and the total of a metric are cuts of
the exact sums of the values that the violations have, and only these values, in whatever order,
decide what the report is (`sums_of_violations`).
-/

namespace SuiteMetrics

/-! ### Sums that stop at a limit -/

/-- The exact sum of some values, cut down to a limit; absent when there are no values. -/
def cutSum? (limit : Nat) (values : List Nat) : Option Nat :=
  if values = [] then none else some (min limit values.sum)

theorem cutSum?_of_perm {limit : Nat} {xs ys : List Nat} (h : xs.Perm ys) :
    cutSum? limit xs = cutSum? limit ys := by
  have empty : xs = [] ↔ ys = [] := by
    rw [← List.length_eq_zero_iff, h.length_eq, List.length_eq_zero_iff]
  simp only [cutSum?, empty, h.sum_nat]

/-- One more value is added to a cut sum, which counts as zero when it is absent. -/
theorem cutSum?_concat {limit : Nat} {values : List Nat} {sum : Option (Capped limit)}
    (h : sum.map (·.val) = cutSum? limit values) (value : Capped limit) :
    some (sum.getD 0 + value).val = cutSum? limit (values ++ [value.val]) := by
  have before : (sum.getD 0).val = min limit values.sum := by
    unfold cutSum? at h
    split at h
    case isTrue empty =>
        rw [Option.map_eq_none_iff.mp h, empty]
        exact (Nat.min_zero limit).symm
    case isFalse =>
        obtain ⟨sum, rfl, val⟩ := Option.map_eq_some_iff.mp h
        exact val
  have some_ : values ++ [value.val] ≠ [] := by simp
  rw [cutSum?, if_neg some_, Capped.val_add, before, List.sum_append_nat, List.sum_singleton]
  congr 1
  omega

theorem Capped.val_injective (limit : Nat) :
    Function.Injective (Capped.val : Capped limit → Nat) := fun _ _ => Capped.ext

/-- Adding up from a number is adding it to what is added up from zero. -/
theorem Capped.foldl_add_eq {limit : Nat} (start : Capped limit) (values : List (Capped limit)) :
    values.foldl (· + ·) start = start + values.foldl (· + ·) 0 := by
  induction values generalizing start with
  | nil => exact (add_zero start).symm
  | cons value values ih =>
      rw [List.foldl_cons, List.foldl_cons, ih, ih (0 + value), zero_add, add_assoc]

namespace Assoc

variable {κ : Type} {limit : Nat}

/-- The values under some keys. -/
def valuesUnder (p : κ → Prop) [DecidablePred p] (ms : List (κ × Capped limit)) : List Nat :=
  (ms.filter fun m => p m.1).map fun m => m.2.val

theorem valuesUnder_concat (p : κ → Prop) [DecidablePred p] (ms : List (κ × Capped limit))
    (m : κ × Capped limit) : valuesUnder p (ms ++ [m]) =
      if p m.1 then valuesUnder p ms ++ [m.2.val] else valuesUnder p ms := by
  by_cases concerned : p m.1
  · simp [valuesUnder, concerned]
  · simp [valuesUnder, concerned]

/-- The sum of some values, absent when there is none. -/
def total? : List (Capped limit) → Option (Capped limit)
  | [] => none
  | values => some (values.foldl (· + ·) 0)

theorem total?_cons (value : Capped limit) (values : List (Capped limit)) :
    total? (value :: values) = some (value + (total? values).getD 0) := by
  have rest : (total? values).getD 0 = values.foldl (· + ·) 0 := by
    cases values with
    | nil => rfl
    | cons => rfl
  rw [rest, total?, List.foldl_cons, Capped.zero_add, Capped.foldl_add_eq]
  exact List.cons_ne_nil _ _

/-- The sum of the sums under some keys, absent when there is none. -/
def sumUnder? (p : κ → Prop) [DecidablePred p] (sums : List (κ × Capped limit)) :
    Option (Capped limit) :=
  total? ((sums.filter fun s => p s.1).map Prod.snd)

theorem sumUnder?_cons (p : κ → Prop) [DecidablePred p] (s : κ × Capped limit)
    (sums : List (κ × Capped limit)) :
    sumUnder? p (s :: sums) =
      if p s.1 then some (s.2 + (sumUnder? p sums).getD 0) else sumUnder? p sums := by
  unfold sumUnder?
  rw [List.filter_cons]
  by_cases concerned : p s.1
  · rw [if_pos (decide_eq_true concerned), if_pos concerned, List.map_cons, total?_cons]
  · rw [if_neg (by rwa [decide_eq_true_eq]), if_neg concerned]

/-! ### Sums by key -/

variable [DecidableEq κ] [LT κ] [DecidableLT κ]

/-- Sums by key, with one more value under its key. -/
def addTo (sums : List (κ × Capped limit)) (m : κ × Capped limit) : List (κ × Capped limit) :=
  update m.1 (fun sum => sum.getD 0 + m.2) sums

/-- The sums of values by their keys. -/
def summed (ms : List (κ × Capped limit)) : List (κ × Capped limit) := ms.foldl addTo []

/-- The sum under some keys grows with the values under these keys. -/
theorem sumUnder?_addTo (p : κ → Prop) [DecidablePred p] (sums : List (κ × Capped limit))
    (m : κ × Capped limit) :
    sumUnder? p (addTo sums m) =
      if p m.1 then some ((sumUnder? p sums).getD 0 + m.2) else sumUnder? p sums := by
  obtain ⟨key, value⟩ := m
  unfold addTo
  induction sums with
  | nil =>
      rw [update, sumUnder?_cons]
      exact if_congr Iff.rfl (congrArg some (Capped.add_zero _)) rfl
  | cons s sums ih =>
      obtain ⟨k, sum⟩ := s
      rw [update]
      by_cases same : key = k
      · subst same
        rw [if_pos rfl, sumUnder?_cons, sumUnder?_cons]
        split
        · refine congrArg some ?_
          ext
          simp only [Option.getD_some, Capped.val_add]
          omega
        · rfl
      · rw [if_neg same]
        by_cases before : key < k
        · rw [if_pos before, sumUnder?_cons p (key, _)]
          refine if_congr Iff.rfl (congrArg some ?_) rfl
          exact (congrArg (· + _) (Capped.zero_add value)).trans (Capped.add_comm value _)
        · rw [if_neg before, sumUnder?_cons, sumUnder?_cons, ih]
          by_cases concerned : p key
          · simp only [concerned, if_true, Option.getD_some]
            split
            · rw [Option.getD_some, Capped.add_assoc]
            · rfl
          · simp only [concerned, if_false]

variable [IsStrictTotalOrder κ (· < ·)]

theorem ascending_summed (ms : List (κ × Capped limit)) : Ascending (summed ms) :=
  ascending_foldl_update ms List.Pairwise.nil

/-- What is read off sums and grows with every value under some keys, and with no other, is one cut
of the exact sum of the values under these keys. -/
theorem cutSum?_of_growing {p : κ → Prop} [DecidablePred p]
    {read : List (κ × Capped limit) → Option (Capped limit)} (none_ : read [] = none)
    (grow : ∀ sums m, Ascending sums → read (addTo sums m) =
      if p m.1 then some ((read sums).getD 0 + m.2) else read sums)
    (ms : List (κ × Capped limit)) :
    (read (summed ms)).map (·.val) = cutSum? limit (valuesUnder p ms) := by
  induction ms using List.reverseRecOn with
  | nil => exact congrArg _ none_
  | append_singleton ms m ih =>
      have added : summed (ms ++ [m]) = addTo (summed ms) m := by
        rw [summed, List.foldl_append]
        rfl
      rw [added, grow _ _ (ascending_summed ms), valuesUnder_concat]
      split
      · exact cutSum?_concat ih m.2
      · exact ih

/-- The sum under a key grows with the values under this key. -/
theorem get?_addTo (key : κ) (sums : List (κ × Capped limit)) (m : κ × Capped limit)
    (h : Ascending sums) :
    get? key (addTo sums m) =
      if m.1 = key then some ((get? key sums).getD 0 + m.2) else get? key sums := by
  rw [addTo, get?_update _ _ h]
  by_cases same : key = m.1
  · rw [if_pos same, if_pos same.symm, same]
  · rw [if_neg same, if_neg fun h => same h.symm]

/-- The sum under a key is one cut of the exact sum of the values under it. -/
theorem get?_summed (key : κ) (ms : List (κ × Capped limit)) :
    (get? key (summed ms)).map (·.val) = cutSum? limit (valuesUnder (· = key) ms) :=
  cutSum?_of_growing rfl (get?_addTo key) ms

/-- The sum of the sums under some keys is one cut of the exact sum of the values under them. -/
theorem sumUnder?_summed (p : κ → Prop) [DecidablePred p] (ms : List (κ × Capped limit)) :
    (sumUnder? p (summed ms)).map (·.val) = cutSum? limit (valuesUnder p ms) :=
  cutSum?_of_growing rfl (fun sums m _ => sumUnder?_addTo p sums m) ms

/-- The order of the values does not matter. -/
theorem summed_of_perm {ms ns : List (κ × Capped limit)} (h : ms.Perm ns) :
    summed ms = summed ns := by
  refine ascending_ext (ascending_summed ms) (ascending_summed ns) fun key => ?_
  have values : (valuesUnder (· = key) ms).Perm (valuesUnder (· = key) ns) :=
    (h.filter _).map _
  refine Option.map_injective (Capped.val_injective limit) ?_
  rw [get?_summed, get?_summed, cutSum?_of_perm values]

end Assoc

namespace Violations

open Assoc (addTo summed valuesUnder)
open Json (Document)

/-! ### Subjects -/

theorem Rule.ofName?_eq_some_iff {name : String} {rule : Rule} :
    Rule.ofName? name = some rule ↔ name = rule.name := by
  constructor
  · intro found
    rw [ofName?] at found
    have same := List.find?_some found
    exact (beq_iff_eq.mp same).symm
  · rintro rfl
    cases rule with
    | cognitive => rfl
    | cyclomatic => rfl

theorem Rule.metric_injective : Function.Injective Rule.metric := by
  intro a b same
  cases a with
  | cognitive =>
      cases b with
      | cognitive => rfl
      | cyclomatic => cases same
  | cyclomatic =>
      cases b with
      | cognitive => cases same
      | cyclomatic => rfl

theorem Rule.name_injective : Function.Injective Rule.name := by
  intro a b same
  have named := Rule.ofName?_eq_some_iff.mpr same
  rw [Rule.ofName?_eq_some_iff.mpr rfl] at named
  exact Option.some.inj named

/-- A subject is ordered by its file and by the place of its rule. -/
def Subject.rank (s : Subject) : String ×ₗ Nat := toLex (s.file, s.rule.metric.rank)

theorem Subject.rank_injective : Function.Injective Subject.rank := by
  rintro ⟨file, rule⟩ ⟨file', rule'⟩ same
  obtain ⟨same, rank⟩ := Prod.mk.inj (toLex.injective same)
  exact congrArg₂ Subject.mk same (Rule.metric_injective (Metric.rank_injective rank))

theorem Subject.rank_lt_iff {s t : Subject} : s.rank < t.rank ↔ s < t := by
  rw [rank, rank, Prod.Lex.toLex_lt_toLex]
  exact Iff.rfl

instance : IsStrictTotalOrder Subject (· < ·) :=
  RelEmbedding.isStrictTotalOrder ⟨⟨Subject.rank, Subject.rank_injective⟩, Subject.rank_lt_iff⟩

/-! ### Violations that have a value -/

namespace Violation

/-- The value of a violation: none if its rule is not known, or if its message has none. -/
def value? (v : Violation) : Option Total :=
  (Rule.ofName? v.rule).bind fun rule => extract? rule v.message

/-- What a violation adds to a report, and for which subject. -/
def measured? (v : Violation) : Option (Subject × Total) :=
  (Rule.ofName? v.rule).bind fun rule =>
    (extract? rule v.message).map fun value => (⟨v.file, rule⟩, value)

theorem value?_eq_map (v : Violation) : v.value? = v.measured?.map Prod.snd := by
  unfold value? measured?
  cases Rule.ofName? v.rule with
  | none => rfl
  | some rule =>
      rw [Option.bind_some, Option.bind_some]
      cases extract? rule v.message with
      | none => rfl
      | some value => rfl

theorem subject_of_measured? {v : Violation} {m : Subject × Total} (h : v.measured? = some m) :
    v.file = m.1.file ∧ Rule.ofName? v.rule = some m.1.rule := by
  obtain ⟨rule, named, h⟩ := Option.bind_eq_some_iff.mp h
  obtain ⟨value, -, rfl⟩ := Option.map_eq_some_iff.mp h
  exact ⟨rfl, named⟩

end Violation

/-- The values of the violations that satisfy a condition. -/
def valuesWhere (q : Violation → Prop) [DecidablePred q] (vs : List Violation) : List Nat :=
  ((vs.filter fun v => q v).filterMap Violation.value?).map (·.val)

/-- Conditions on violations and on their subjects that agree select the same values. -/
theorem valuesUnder_filterMap_measured? {p : Subject → Prop} [DecidablePred p]
    {q : Violation → Prop} [DecidablePred q]
    (agree : ∀ v m, v.measured? = some m → (p m.1 ↔ q v)) (vs : List Violation) :
    valuesUnder p (vs.filterMap Violation.measured?) = valuesWhere q vs := by
  unfold valuesUnder valuesWhere
  induction vs with
  | nil => rfl
  | cons v vs ih =>
      rw [List.filter_cons]
      cases measured : v.measured? with
      | none =>
          have none_ : v.value? = none := by rw [v.value?_eq_map, measured]; rfl
          rw [List.filterMap_cons_none measured]
          split
          · rwa [List.filterMap_cons_none none_]
          · exact ih
      | some m =>
          have value : v.value? = some m.2 := by rw [v.value?_eq_map, measured]; rfl
          have same : decide (p m.1) = decide (q v) := decide_eq_decide.mpr (agree v m measured)
          rw [List.filterMap_cons_some measured, List.filter_cons, same]
          split
          · rw [List.filterMap_cons_some value, List.map_cons, List.map_cons, ih]
          · exact ih

/-! ### Reports -/

namespace Report

theorem add_eq (r : Report) (v : Violation) :
    r.add v = match v.measured? with
      | none => r
      | some m => ⟨addTo r.sums m⟩ := by
  unfold add Violation.measured?
  cases Rule.ofName? v.rule with
  | none => rfl
  | some rule =>
      simp only [Option.bind_some]
      cases extract? rule v.message with
      | none => rfl
      | some value => rfl

theorem foldl_add (r : Report) (vs : List Violation) :
    vs.foldl add r = ⟨(vs.filterMap Violation.measured?).foldl addTo r.sums⟩ := by
  induction vs generalizing r with
  | nil => rfl
  | cons v vs ih =>
      rw [List.foldl_cons, ih, add_eq, List.filterMap_cons]
      cases v.measured? with
      | none => rfl
      | some m => rfl

/-- A report keeps the sums of the values of its violations. -/
theorem ofViolations_eq (vs : List Violation) :
    ofViolations vs = ⟨summed (vs.filterMap Violation.measured?)⟩ :=
  foldl_add empty vs

/-- Violations without a value change nothing, and neither does the order of the others. -/
theorem ofViolations_of_perm {vs ws : List Violation}
    (h : (vs.filter (·.value?.isSome)).Perm (ws.filter (·.value?.isSome))) :
    ofViolations vs = ofViolations ws := by
  have only (vs : List Violation) : vs.filterMap Violation.measured? =
      (vs.filter (·.value?.isSome)).filterMap Violation.measured? := by
    rw [List.filterMap_filter]
    refine List.filterMap_congr ?_
    intro v _
    rw [v.value?_eq_map, Option.isSome_map]
    cases v.measured? with
    | none => rfl
    | some m => rfl
  rw [ofViolations_eq, ofViolations_eq, only vs, only ws,
    Assoc.summed_of_perm (h.filterMap Violation.measured?)]

/-- The totals of a report are the sums of the sums of each rule. -/
theorem totals_eq (r : Report) :
    r.totals = Rule.all.filterMap fun rule =>
      (Assoc.sumUnder? (fun s : Subject => s.rule = rule) r.sums).map fun total =>
        (rule, total) := by
  unfold totals
  refine List.filterMap_congr ?_
  intro rule _
  unfold Assoc.sumUnder? valuesOf
  cases (r.sums.filter fun s => s.1.rule = rule).map Prod.snd with
  | nil => rfl
  | cons => rfl

/-- The sums of a report are those of some violations, each cut once. -/
structure Sums (r : Report) (vs : List Violation) : Prop where
  /-- A file and rule has the sum of its values, and none if it has no value. -/
  sum : ∀ file rule, (r.sumOf? file rule).map (·.val) =
    cutSum? limit (valuesWhere (fun v => v.file = file ∧ v.rule = rule) vs)
  /-- There is one total for each metric that has a value in any file, in the order of the metrics,
  and no other. -/
  totals : (r.totals.map fun (rule, total) => (rule.metric, total.val)) =
    [Metric.pmdCognitive, .pmdCyclomatic].filterMap fun metric =>
      (cutSum? limit (valuesWhere
        (fun v => (Rule.ofName? v.rule).map Rule.metric = some metric) vs)).map fun total =>
          (metric, total)
  /-- The measurements are the totals as doubles. -/
  measurements : r.measurements = [Metric.pmdCognitive, .pmdCyclomatic].filterMap fun metric =>
    (cutSum? limit (valuesWhere
      (fun v => (Rule.ofName? v.rule).map Rule.metric = some metric) vs)).map fun total =>
        (metric, Float.ofNat total)

theorem sumOf?_ofViolations (vs : List Violation) (file rule : String) :
    ((ofViolations vs).sumOf? file rule).map (·.val) =
      cutSum? limit (valuesWhere (fun v => v.file = file ∧ v.rule = rule) vs) := by
  unfold sumOf?
  cases named : Rule.ofName? rule with
  | none =>
      have nothing : valuesWhere (fun v => v.file = file ∧ v.rule = rule) vs = [] := by
        refine List.map_eq_nil_iff.mpr (List.filterMap_eq_nil_iff.mpr ?_)
        intro v mem
        obtain ⟨-, rfl⟩ := of_decide_eq_true (List.mem_filter.mp mem).2
        rw [Violation.value?, named]
        rfl
      rw [nothing]
      rfl
  | some known =>
      obtain rfl := Rule.ofName?_eq_some_iff.mp named
      have agree (v : Violation) (m : Subject × Total) (h : v.measured? = some m) :
          m.1 = ⟨file, known⟩ ↔ v.file = file ∧ v.rule = known.name := by
        obtain ⟨⟨file', rule'⟩, value⟩ := m
        obtain ⟨rfl, sameRule⟩ := Violation.subject_of_measured? h
        rw [Rule.ofName?_eq_some_iff] at sameRule
        rw [Subject.mk.injEq, sameRule]
        refine and_congr_right fun _ => ⟨congrArg Rule.name, fun same => ?_⟩
        exact Rule.name_injective same
      rw [Option.bind_some, sum?, ofViolations_eq, Assoc.get?_summed,
        valuesUnder_filterMap_measured? agree]

theorem totals_ofViolations (vs : List Violation) :
    ((ofViolations vs).totals.map fun (rule, total) => (rule.metric, total.val)) =
      [Metric.pmdCognitive, .pmdCyclomatic].filterMap fun metric =>
        (cutSum? limit (valuesWhere
          (fun v => (Rule.ofName? v.rule).map Rule.metric = some metric) vs)).map fun total =>
            (metric, total) := by
  change _ = (Rule.all.map Rule.metric).filterMap _
  rw [totals_eq, List.map_filterMap, List.filterMap_map]
  refine List.filterMap_congr ?_
  intro rule _
  have agree (v : Violation) (m : Subject × Total) (h : v.measured? = some m) :
      m.1.rule = rule ↔ (Rule.ofName? v.rule).map Rule.metric = some rule.metric := by
    obtain ⟨-, named⟩ := Violation.subject_of_measured? h
    rw [named, Option.map_some, Option.some.injEq]
    exact ⟨congrArg Rule.metric, fun same => Rule.metric_injective same⟩
  rw [Function.comp_apply, ← valuesUnder_filterMap_measured? (p := fun s => s.rule = rule) agree,
    ← Assoc.sumUnder?_summed, ofViolations_eq, Option.map_map, Option.map_map]
  rfl

theorem measurements_eq_map_totals (r : Report) :
    r.measurements = (r.totals.map fun (rule, total) => (rule.metric, total.val)).map
      fun (metric, total) => (metric, Float.ofNat total) := by
  rw [measurements, List.map_map]
  rfl

/-- The report of some violations has their sums. -/
theorem sums_ofViolations (vs : List Violation) : (ofViolations vs).Sums vs where
  sum := sumOf?_ofViolations vs
  totals := totals_ofViolations vs
  measurements := by
    rw [measurements_eq_map_totals, totals_ofViolations, List.map_filterMap]
    refine List.filterMap_congr ?_
    intro metric _
    rw [Option.map_map]
    rfl

end Report

/-! ### JSON reports -/

/-- A text is a JSON report that can be read and lists some violations, file by file. -/
def ReadsJson (text : String) (vs : List Violation) : Prop :=
  (Document.ofText? text.toList).bind violationsOfDocument? = some vs

instance (text : String) (vs : List Violation) : Decidable (ReadsJson text vs) :=
  inferInstanceAs (Decidable (_ = _))

/-- A JSON report that can be read begins with a brace, blanks apart, and is read with all its
violations. -/
theorem ofText_of_readsJson {text : String} {vs : List Violation} (h : ReadsJson text vs) :
    Report.ofText text = .ofViolations vs := by
  obtain ⟨d, complete, listed⟩ := Option.bind_eq_some_iff.mp h
  obtain ⟨fields, rfl⟩ : ∃ fields, d = .object fields := by
    cases d with
    | object fields => exact ⟨fields, rfl⟩
    | _ => cases listed
  obtain ⟨rest, read, -⟩ := ofText?_inv complete
  obtain ⟨r, begins⟩ := object_begins read
  have brace : Text.trimStart text.toList = '\x7b' :: r := by
    have split := List.takeWhile_append_dropWhile (p := Text.isMarkupBlank) (l := text.toList)
    rw [← split, show text.toList.dropWhile Text.isMarkupBlank = _ from begins]
    exact Text.trimStart_append (fun c hc => List.mem_takeWhile_imp hc) rfl
  have violations : violationsOfText? text.toList = some vs := by
    rw [violationsOfText?, brace]
    exact h
  rw [Report.ofText, violations]

/-- The sums of a report are the exact sums of the values of its violations, each cut once, for a
report made of any list of violations and for every JSON text that can be read. Only the violations
that have a value decide what a report is, in whatever order they are listed and under whatever file
objects. -/
theorem sums_of_violations :
    (∀ vs, (Report.ofViolations vs).Sums vs) ∧
    (∀ text vs, ReadsJson text vs → (Report.ofText text).Sums vs) ∧
    (∀ vs ws : List Violation,
      (vs.filter (·.value?.isSome)).Perm (ws.filter (·.value?.isSome)) →
        Report.ofViolations vs = .ofViolations ws ∧
        ∀ text text', ReadsJson text vs → ReadsJson text' ws →
          Report.ofText text = Report.ofText text') := by
  refine ⟨Report.sums_ofViolations, fun text vs reads => ?_, fun vs ws perm => ?_⟩
  · rw [ofText_of_readsJson reads]
    exact Report.sums_ofViolations vs
  · have same := Report.ofViolations_of_perm perm
    refine ⟨same, fun text text' reads reads' => ?_⟩
    rw [ofText_of_readsJson reads, ofText_of_readsJson reads', same]

/-! ### A file listed twice -/

/-- An entry of a rule about complexity. -/
def entry (file value : String) : Violation :=
  ⟨file, "CognitiveComplexity", "cognitive complexity of ".toList ++ value.toList⟩

/-- A value at the limit, one of another file, one more of the first file, a rule that is not known
and a message without a value. -/
def repeatedFile : List Violation :=
  [entry "A" "18446744073709551615", entry "B" "3", { entry "B" "7" with rule := "LongMethod" },
    entry "A" "5", { entry "A" "" with message := [] }]

/-- The entries with a value the other way round. -/
def repeatedFileReversed : List Violation :=
  [entry "A" "5", entry "B" "3", entry "A" "18446744073709551615"]

/-- A file object with some entries. -/
def fileObject (file : String) (vs : List Violation) : List Char :=
  let entries := vs.map fun v =>
    "\x7b\"rule\":\"".toList ++ v.rule.toList ++ "\",\"description\":\"".toList ++ v.message ++
      "\"\x7d".toList
  "\x7b\"filename\":\"".toList ++ file.toList ++ "\",\"violations\":[".toList ++
    [','].intercalate entries ++ "]\x7d".toList

/-- A document with some file objects. -/
def documentOf (files : List (List Char)) : String :=
  String.ofList ("\x7b\"files\":[".toList ++ [','].intercalate files ++ "]\x7d".toList)

/-- The first file has two objects. -/
def repeatedFileText : String :=
  documentOf [fileObject "A" (repeatedFile.take 1),
    fileObject "B" ((repeatedFile.drop 1).take 2), fileObject "A" (repeatedFile.drop 3)]

/-- Every entry has an object of its own. -/
def repeatedFileReversedText : String :=
  documentOf (repeatedFileReversed.map fun v => fileObject v.file [v])

theorem readsJson_repeatedFile : ReadsJson repeatedFileText repeatedFile := by
  unfold ReadsJson repeatedFileText documentOf
  rw [String.toList_ofList]
  decide +kernel

theorem readsJson_repeatedFileReversed :
    ReadsJson repeatedFileReversedText repeatedFileReversed := by
  unfold ReadsJson repeatedFileReversedText documentOf
  rw [String.toList_ofList]
  decide +kernel

/-- The sums of both texts are the same, and stop at the limit. -/
theorem sums_of_repeatedFile :
    ReadsJson repeatedFileText repeatedFile ∧
    ReadsJson repeatedFileReversedText repeatedFileReversed ∧
    Report.ofText repeatedFileText = Report.ofText repeatedFileReversedText ∧
    ((Report.ofText repeatedFileText).sumOf? "A" "CognitiveComplexity").map (·.val) =
      some 18446744073709551615 ∧
    ((Report.ofText repeatedFileText).totals.map fun (rule, total) => (rule.metric, total.val)) =
      [(.pmdCognitive, 18446744073709551615)] ∧
    (Report.ofText repeatedFileText).measurements =
      [(.pmdCognitive, Float.ofNat 18446744073709551615)] := by
  have reads := readsJson_repeatedFile
  have reads' := readsJson_repeatedFileReversed
  have perm : (repeatedFile.filter (·.value?.isSome)).Perm
      (repeatedFileReversed.filter (·.value?.isSome)) := by decide +kernel
  have sums := sums_of_violations.2.1 _ _ reads
  refine ⟨reads, reads', (sums_of_violations.2.2 _ _ perm).2 _ _ reads reads', ?_, ?_, ?_⟩
  · rw [sums.sum]
    decide +kernel
  · rw [sums.totals]
    rfl
  · rw [sums.measurements]
    rfl

end Violations

end SuiteMetrics
