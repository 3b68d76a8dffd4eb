import SuiteMetrics.Analysis.Import
import SuiteMetrics.Proofs.Ascending
import SuiteMetrics.Proofs.FiniteIndex

/-!
What the values of a row are.

The values of a row stand under different metrics, all of them asked for, and all are numbers
(`MetricValues.Sound`). This holds of the scores of any file under any request, whatever the called
programs answer (`FileScores.sound`), and of any imported report (`ImportedReport.sound`).
-/

namespace SuiteMetrics

instance : IsStrictTotalOrder Metric (· < ·) :=
  RelEmbedding.isStrictTotalOrder
    (s := ((· < ·) : Nat → Nat → Prop)) ⟨⟨Metric.rank, fun _ _ => Metric.rank_injective⟩, Iff.rfl⟩

/-! ### Answers of programs -/

namespace Tool.Instrument

variable {i : Instrument} {run : Runner} {path : String}

/-- What is measured was read in the answer to the instrument's call. -/
theorem mem_measure_iff {m : Measurement} :
    m ∈ i.measure run path ↔
      ∃ call o, i.call? path = some call ∧ run call = .ok o ∧ m ∈ i.read path o := by
  rw [measure]
  constructor
  · intro mem
    split at mem
    case h_1 o answer =>
        obtain ⟨call, called, answer⟩ := Option.map_eq_some_iff.mp answer
        exact ⟨call, o, called, answer, mem⟩
    case h_2 => exact absurd mem List.not_mem_nil
  · rintro ⟨call, o, called, answer, mem⟩
    rw [called, Option.map_some, answer]
    exact mem

end Tool.Instrument

namespace Violations

open Tool (Measurement Output)

theorem mem_readOutput_iff {o : Output} {m : Measurement} :
    m ∈ readOutput o ↔
      isUsable o ∧ (m.metric, m.value) ∈ (Report.ofText o.stdout).measurements := by
  rw [readOutput]
  split
  case isTrue usable =>
      rw [List.mem_map]
      constructor
      · rintro ⟨v, mem, rfl⟩
        exact ⟨usable, mem⟩
      · rintro ⟨-, mem⟩
        exact ⟨_, mem, rfl⟩
  case isFalse unusable =>
      refine ⟨fun mem => absurd mem List.not_mem_nil, ?_⟩
      rintro ⟨usable, -⟩
      exact absurd usable unusable

end Violations

namespace Readability

open Tool (Output)

theorem finite?_eq_some_iff {text : List Char} {x : Float} :
    finite? text = some x ↔ Decimal.readFloat? (Text.trim text) = some x ∧ x.isFinite = true := by
  rw [finite?]
  cases Decimal.readFloat? (Text.trim text) with
  | none => simp
  | some y =>
      rw [Option.ite_none_right_eq_some, Option.some.injEq]
      constructor
      · rintro ⟨finite, rfl⟩
        exact ⟨rfl, finite⟩
      · rintro ⟨rfl, finite⟩
        exact ⟨finite, rfl⟩

theorem Settings.scoreIn?_eq_some_iff {s : Settings} {name : String} {o : Output} {x : Float} :
    s.scoreIn? name o = some x ↔ o.status = some 0 ∧
      ∃ record, (records s.ignored o.stdout.toList).find?
          (fun r => baseName r.1 = name.toList) = some record ∧
        Decimal.readFloat? (Text.trim record.2) = some x ∧ x.isFinite = true := by
  rw [scoreIn?, Option.ite_none_right_eq_some, Output.success, decide_eq_true_iff,
    Readability.scoreIn?]
  refine and_congr_right fun _ => ?_
  cases (records s.ignored o.stdout.toList).find? (fun r => baseName r.1 = name.toList) with
  | none => simp
  | some record =>
      obtain ⟨recorded, score⟩ := record
      simp [finite?_eq_some_iff]

end Readability

end SuiteMetrics

namespace SuiteMetrics.Analysis

open Scoring (PolicyKind Score Traversal)
open Tool (Instrument Runner)

/-! ### Values under metrics -/

/-- The values are numbers under some metrics, each once. -/
structure MetricValues.Sound (metrics : List Metric) (values : MetricValues Float) : Prop where
  ascending : Assoc.Ascending values
  sound : ∀ v ∈ values, v.1 ∈ metrics ∧ v.2.isFinite = true

namespace MetricValues.Sound

variable {metrics : List Metric} {values : MetricValues Float}

theorem nil : Sound metrics [] where
  ascending := List.Pairwise.nil
  sound _ mem := absurd mem List.not_mem_nil

theorem put (h : values.Sound metrics) {metric : Metric} (hm : metric ∈ metrics) {value : Float}
    (hv : value.isFinite = true) : (values.put metric value).Sound metrics where
  ascending := Assoc.ascending_update _ _ h.ascending
  sound := by
    rintro ⟨m, v⟩ mem
    have read := (Assoc.mem_iff_get? (Assoc.ascending_update _ _ h.ascending)).mp mem
    rw [Assoc.get?_update _ _ h.ascending] at read
    split at read
    case isTrue same =>
        cases read
        exact ⟨same ▸ hm, hv⟩
    case isFalse => exact h.sound _ (Assoc.mem_of_get? read)

/-- Values that are put one after another are sound if each of them is. -/
theorem foldl_put {α : Type} {measured : List α} {metric : α → Metric} {value : α → Float}
    (h : values.Sound metrics)
    (hm : ∀ m ∈ measured, metric m ∈ metrics ∧ (value m).isFinite = true) :
    (measured.foldl (fun values m => MetricValues.put values (metric m) (value m)) values).Sound
      metrics := by
  refine List.foldlRecOn (motive := fun values => MetricValues.Sound metrics values) measured _ h ?_
  intro values sound m mem
  obtain ⟨asked, finite⟩ := hm m mem
  exact sound.put asked finite

end MetricValues.Sound

/-! ### Scores -/

/-- A count below the limit of any score or sum is a number. -/
theorem ofNat_isFinite {n : Nat} (h : n < 2 ^ 64) : (Float.ofNat n).isFinite = true :=
  (Decimal.ofNat_within h (by decide) (by decide)).isFinite

theorem within_toValue (score : Score) :
    Decimal.Within 3 (Scores.toValue score).toModel.unpack :=
  Decimal.ofNat_within (lt_of_le_of_lt score.val_le (by decide : _ < 2 ^ 55)) (by decide)
    (by decide)

/-- A policy adds its score, and with cyclomatic scores the maintainability index. -/
theorem Scores.addPolicy_sound {metrics : List Metric} {s : Scores} (h : s.values.Sound metrics)
    {kind : PolicyKind} (asked : kind.metric ∈ metrics)
    (index : kind = .cyclomatic → .maintainability ∈ metrics) (traversal : Traversal)
    (byMethod : Bool) (t : Syntax.Tree) :
    (addPolicy traversal byMethod t s kind).values.Sound metrics := by
  have scored (score : Score) : (MetricValues.put s.values kind.metric (toValue score)).Sound
      metrics := h.put asked (within_toValue score).isFinite
  rw [addPolicy.eq_def]
  dsimp only
  split
  case h_1 value present =>
      exact (scored _).put (index rfl)
        (maintainability_isFinite (.inl (within_toValue _)) present)
  case h_2 => exact scored _

/-- Policies add values of their own metrics. -/
theorem Scores.foldl_addPolicy_sound {metrics : List Metric} {kinds : List PolicyKind}
    (asked : ∀ kind ∈ kinds,
      kind.metric ∈ metrics ∧ (kind = .cyclomatic → .maintainability ∈ metrics))
    (traversal : Traversal) (byMethod : Bool) (t : Syntax.Tree) :
    (kinds.foldl (addPolicy traversal byMethod t) ⟨[], []⟩).values.Sound metrics := by
  refine List.foldlRecOn (motive := fun s : Scores => s.values.Sound metrics) _ _
    MetricValues.Sound.nil ?_
  intro s sound kind mem
  obtain ⟨own, index⟩ := asked kind mem
  exact addPolicy_sound sound own index traversal byMethod t

/-- An instrument adds values of its own metrics. -/
theorem Scores.addInstrument_sound {metrics : List Metric} {s : Scores}
    (h : s.values.Sound metrics) {i : Instrument} (asked : i.metrics ⊆ metrics) {run : Runner}
    {path : String} (finite : ∀ m ∈ i.measure run path, m.value.isFinite = true) :
    (addInstrument run path s i).values.Sound metrics := by
  refine h.foldl_put ?_
  intro m mem
  obtain ⟨mem, own⟩ := List.mem_filter.mp mem
  exact ⟨asked (List.contains_iff_mem.mp own), finite m mem⟩

/-! ### Instruments -/

/-- The totals of a report are numbers. -/
theorem measurements_sound (r : Violations.Report) :
    ∀ v ∈ r.measurements, v.1 ∈ importedMetrics ∧ v.2.isFinite = true := by
  intro v mem
  obtain ⟨⟨rule, total⟩, -, rfl⟩ := List.mem_map.mp mem
  refine ⟨?_, ofNat_isFinite (lt_of_le_of_lt total.val_le (by decide))⟩
  cases rule with
  | cognitive => exact List.mem_cons_self
  | cyclomatic => exact List.mem_cons_of_mem _ List.mem_cons_self

theorem checker_finite (c : Violations.CheckerSettings) {run : Runner} {path : String} :
    ∀ m ∈ (Violations.checker c).measure run path, m.value.isFinite = true := by
  intro m mem
  obtain ⟨_, o, -, -, read⟩ := Instrument.mem_measure_iff.mp mem
  obtain ⟨-, reported⟩ := Violations.mem_readOutput_iff.mp read
  exact (measurements_sound _ _ reported).2

theorem readability_finite (directory : String) (s : Readability.Settings) {run : Runner}
    {path : String} :
    ∀ m ∈ (Readability.model directory s).measure run path, m.value.isFinite = true := by
  intro m mem
  obtain ⟨_, o, -, -, read⟩ := Instrument.mem_measure_iff.mp mem
  rw [Readability.model] at read
  dsimp only at read
  split at read
  case h_1 x present =>
      obtain ⟨subject, -, present⟩ := Option.bind_eq_some_iff.mp present
      obtain ⟨-, record, -, -, finite⟩ := Readability.Settings.scoreIn?_eq_some_iff.mp present
      rw [List.mem_singleton.mp read]
      exact finite
  case h_2 => exact absurd read List.not_mem_nil

/-! ### Rows -/

namespace ScoreRequest

variable {r : ScoreRequest}

theorem mem_metrics {source : MetricSource} (chosen : source ∈ r.chosen) {metric : Metric}
    (given : metric ∈ source.metrics) : metric ∈ r.metrics :=
  List.mem_flatMap.mpr ⟨source, chosen, given⟩

/-- The metrics of a policy of the request are asked for. -/
theorem asked_of_mem_policies {kind : PolicyKind} (h : kind ∈ r.policies) :
    kind.metric ∈ r.metrics ∧ (kind = .cyclomatic → .maintainability ∈ r.metrics) := by
  obtain ⟨source, chosen, gives⟩ := List.mem_filterMap.mp h
  cases source with
  | cognitive =>
      cases gives
      exact ⟨mem_metrics chosen List.mem_cons_self, fun h => nomatch h⟩
  | testAware =>
      cases gives
      exact ⟨mem_metrics chosen List.mem_cons_self, fun h => nomatch h⟩
  | cyclomatic =>
      cases gives
      exact ⟨mem_metrics chosen List.mem_cons_self,
        fun _ => mem_metrics chosen (List.mem_cons_of_mem _ List.mem_cons_self)⟩
  | checker => cases gives
  | readability => cases gives

theorem mem_instruments_iff {i : Instrument} {directory : String} {settings : Settings} :
    i ∈ r.instruments directory settings ↔
      (MetricSource.checker ∈ r.sources ∧ i = Violations.checker settings.checker) ∨
        (MetricSource.readability ∈ r.sources ∧
          i = Readability.model directory settings.readability) := by
  rw [instruments, List.mem_append, List.mem_ite_nil_right, List.mem_ite_nil_right,
    List.mem_singleton, List.mem_singleton, List.contains_iff_mem, List.contains_iff_mem, chosen,
    List.mem_eraseDups, List.mem_eraseDups]

/-- The metrics of an instrument of the request are asked for, and it measures numbers. -/
theorem asked_of_mem_instruments {i : Instrument} {directory : String} {settings : Settings}
    (h : i ∈ r.instruments directory settings) :
    i.metrics ⊆ r.metrics ∧
      ∀ run path, ∀ m ∈ i.measure run path, m.value.isFinite = true := by
  rcases mem_instruments_iff.mp h with ⟨chosen, rfl⟩ | ⟨chosen, rfl⟩
  · constructor
    · intro metric given
      exact mem_metrics (List.mem_eraseDups.mpr chosen) given
    · intro run path
      exact checker_finite settings.checker
  · constructor
    · intro metric given
      exact mem_metrics (List.mem_eraseDups.mpr chosen) given
    · intro run path
      exact readability_finite directory settings.readability

end ScoreRequest

/-- The values of a scored tree are numbers under metrics that were asked for, whatever the programs
answer. -/
theorem FileScores.sound_ofTree (request : ScoreRequest) (conditions : Conditions)
    (f : Files.InputFile) (t : Syntax.Tree) :
    (ofTree request conditions f t).values.Sound request.metrics := by
  have scored := Scores.foldl_addPolicy_sound
    (fun _ mem => ScoreRequest.asked_of_mem_policies (r := request) mem)
    conditions.settings.traversal request.byMethod t
  refine List.foldlRecOn (motive := fun s : Scores => s.values.Sound request.metrics) _ _
    scored ?_
  intro s hs i mem
  obtain ⟨asked, finite⟩ := ScoreRequest.asked_of_mem_instruments mem
  exact Scores.addInstrument_sound hs asked (finite _ _)

/-- So are the values of a file that has a tree. -/
theorem FileScores.sound {p : Provider} {request : ScoreRequest} {conditions : Conditions}
    {f : Files.InputFile} {scores : FileScores} (h : ofFile? p request conditions f = some scores) :
    scores.values.Sound request.metrics := by
  obtain ⟨t, -, rfl⟩ := Option.map_eq_some_iff.mp h
  exact sound_ofTree request conditions f t

/-- The values of an imported report are numbers under the imported metrics. -/
theorem ImportedReport.sound {keyLength : Nat} {f : Files.InputFile} {imported : ImportedReport}
    (h : ofFile? keyLength f = some imported) : imported.values.Sound importedMetrics := by
  obtain ⟨text, -, rfl⟩ := Option.map_eq_some_iff.mp h
  exact MetricValues.Sound.nil.foldl_put (measurements_sound _)

end SuiteMetrics.Analysis
