import SuiteMetrics.Proofs.MethodRows
import SuiteMetrics.Proofs.ViolationSums

/-!
What the called programs decide.

Every source of a request gives metrics of its own, and what an instrument measures is kept only
under its own metrics (`Scores.get?_addInstrument_of_notMem`). So no answer of a program reaches a
score, a row of a method or a value of another program, and a program's own value is there exactly
when its answer counts and has one (`Violations.CheckerSettings.Gives`,
`Readability.Settings.Gives`). All this is put together in `instruments_keep_apart`.
-/

namespace SuiteMetrics

/-! ### Answers of programs -/

namespace Tool.Instrument

variable {i : Instrument} {run : Runner} {path : String}

/-- A metric is measured at most once if it is read at most once in every answer. -/
theorem nodup_measure (read : ∀ o, ((i.read path o).map Measurement.metric).Nodup) :
    ((i.measure run path).map Measurement.metric).Nodup := by
  rw [measure]
  split
  case h_1 o _ => exact read o
  case h_2 => exact List.nodup_nil

end Tool.Instrument

namespace Violations

open Tool (Measurement Output Runner)

/-- The rule checker answers for a file with a report of some violations, and those with a value of
a metric have a total. -/
structure CheckerSettings.Answers (s : CheckerSettings) (run : Runner) (path : String)
    (metric : Metric) (o : Output) (vs : List Violation) (total : Nat) : Prop where
  started : run (s.call path) = .ok o
  ended : o.status = some 0 ∨ o.status = some 4
  report : violationsOfText? o.stdout.toList = some vs
  total : cutSum? limit (valuesWhere
    (fun v => (Rule.ofName? v.rule).map Rule.metric = some metric) vs) = some total

/-- The rule checker gives a value of a metric for a file. -/
def CheckerSettings.Gives (s : CheckerSettings) (run : Runner) (path : String) (metric : Metric)
    (x : Float) : Prop :=
  ∃ o vs total, s.Answers run path metric o vs total ∧ x = Float.ofNat total

theorem CheckerSettings.Gives.of_same_answer {s : CheckerSettings} {run run' : Runner}
    {path : String} {metric : Metric} {x : Float} (h : s.Gives run path metric x)
    (same : run (s.call path) = run' (s.call path)) : s.Gives run' path metric x := by
  obtain ⟨o, vs, total, answers, value⟩ := h
  exact ⟨o, vs, total, { answers with started := same.symm.trans answers.started }, value⟩

theorem isUsable_iff {o : Output} : isUsable o ↔ o.status = some 0 ∨ o.status = some 4 := by
  rw [isUsable, Output.success, violationsFound, Bool.or_eq_true, decide_eq_true_iff,
    decide_eq_true_iff]

/-- A report has at most one measurement of a metric. -/
theorem Report.nodup_measurements (r : Report) : (r.measurements.map Prod.fst).Nodup := by
  have rules : (r.totals.map Prod.fst).Nodup := by
    simp only [totals_eq, List.map_filterMap, Option.map_map]
    refine List.Nodup.filterMap ?_ (by decide : Rule.all.Nodup)
    intro a b rule ha hb
    obtain ⟨_, -, same⟩ := Option.map_eq_some_iff.mp ha
    obtain ⟨_, -, same'⟩ := Option.map_eq_some_iff.mp hb
    exact same.trans same'.symm
  have metrics := rules.map Rule.metric_injective
  rw [List.map_map] at metrics
  rw [measurements, List.map_map]
  exact metrics

/-- What is measured in a text is the total of the values of the violations in it. -/
theorem mem_measurements_ofText {text : String} {metric : Metric}
    (reported : metric ∈ Rule.all.map Rule.metric) {x : Float} :
    (metric, x) ∈ (Report.ofText text).measurements ↔
      ∃ vs total, violationsOfText? text.toList = some vs ∧
        cutSum? limit (valuesWhere
          (fun v => (Rule.ofName? v.rule).map Rule.metric = some metric) vs) = some total ∧
        x = Float.ofNat total := by
  rw [Report.ofText]
  cases violationsOfText? text.toList with
  | none =>
      refine ⟨fun mem => absurd mem List.not_mem_nil, ?_⟩
      rintro ⟨_, _, none_, -⟩
      cases none_
  | some vs =>
      simp only [(Report.sums_ofViolations vs).measurements, List.mem_filterMap,
        Option.map_eq_some_iff]
      constructor
      · rintro ⟨m, -, total, sum, same⟩
        cases same
        exact ⟨vs, total, rfl, sum, rfl⟩
      · rintro ⟨vs', total, same, sum, rfl⟩
        cases same
        exact ⟨metric, reported, total, sum, rfl⟩

theorem nodup_measure_checker (s : CheckerSettings) (run : Runner) (path : String) :
    (((checker s).measure run path).map Measurement.metric).Nodup := by
  refine Tool.Instrument.nodup_measure fun o => ?_
  change ((readOutput o).map Measurement.metric).Nodup
  rw [readOutput]
  split
  · rw [List.map_map]
    exact (Report.ofText o.stdout).nodup_measurements
  · exact List.nodup_nil

/-- The rule checker measures what it gives. -/
theorem mem_measure_checker_iff {s : CheckerSettings} {run : Runner} {path : String}
    {metric : Metric} (reported : metric ∈ Rule.all.map Rule.metric) {x : Float} :
    ⟨metric, x⟩ ∈ (checker s).measure run path ↔ s.Gives run path metric x := by
  rw [Tool.Instrument.mem_measure_iff]
  constructor
  · rintro ⟨_, o, called, started, mem⟩
    cases called
    obtain ⟨usable, mem⟩ := mem_readOutput_iff.mp mem
    obtain ⟨vs, total, report, sum, value⟩ := (mem_measurements_ofText reported).mp mem
    exact ⟨o, vs, total, ⟨started, isUsable_iff.mp usable, report, sum⟩, value⟩
  · rintro ⟨o, vs, total, answers, value⟩
    refine ⟨_, o, rfl, answers.started, mem_readOutput_iff.mpr ⟨isUsable_iff.mpr answers.ended, ?_⟩⟩
    exact (mem_measurements_ofText reported).mpr ⟨vs, total, answers.report, answers.total, value⟩

end Violations

namespace Readability

open Tool (Measurement Output Runner)

/-- The readability model answers for a file, by its name, with a record that has a score. -/
structure Settings.Answers (s : Settings) (run : Runner) (path name : String) (o : Output)
    (record : List Char × List Char) (x : Float) : Prop where
  started : run (s.call path) = .ok o
  ended : o.status = some 0
  /-- The record is the first one with the name of the file. -/
  first : (records s.ignored o.stdout.toList).find? (fun r => baseName r.1 = name.toList) =
    some record
  number : Decimal.readFloat? (Text.trim record.2) = some x
  finite : x.isFinite = true

/-- The readability model gives a score for a file whose path is taken from a directory. -/
def Settings.Gives (s : Settings) (directory : String) (run : Runner) (file : String) (x : Float) :
    Prop :=
  ∃ path name o record, subject? directory file = some (path, name) ∧
    s.Answers run path name o record x

theorem Settings.Gives.of_same_answer {s : Settings} {directory : String} {run run' : Runner}
    {file : String} {x : Float} (h : s.Gives directory run file x)
    (same : ∀ path name, subject? directory file = some (path, name) →
      run (s.call path) = run' (s.call path)) : s.Gives directory run' file x := by
  obtain ⟨path, name, o, record, subject, answers⟩ := h
  have started := (same path name subject).symm.trans answers.started
  exact ⟨path, name, o, record, subject, { answers with started := started }⟩

/-- The readability model measures what it gives. -/
theorem mem_measure_model_iff {directory : String} {s : Settings} {run : Runner} {file : String}
    {x : Float} :
    ⟨.readability, x⟩ ∈ (model directory s).measure run file ↔ s.Gives directory run file x := by
  have read_iff (path name : String) (subject : subject? directory file = some (path, name))
      (o : Output) : ⟨.readability, x⟩ ∈ (model directory s).read file o ↔
        s.scoreIn? name o = some x := by
    rw [model]
    dsimp only
    rw [subject, Option.bind_some]
    cases s.scoreIn? name o with
    | none => simp
    | some y => simp [eq_comm]
  rw [Tool.Instrument.mem_measure_iff]
  constructor
  · rintro ⟨_, o, called, started, mem⟩
    obtain ⟨⟨path, name⟩, subject, rfl⟩ := Option.map_eq_some_iff.mp called
    obtain ⟨ended, record, first, number, finite⟩ :=
      Settings.scoreIn?_eq_some_iff.mp ((read_iff path name subject o).mp mem)
    exact ⟨path, name, o, record, subject, started, ended, first, number, finite⟩
  · rintro ⟨path, name, o, record, subject, answers⟩
    refine ⟨s.call path, o, congrArg (Option.map _) subject, answers.started, ?_⟩
    refine (read_iff path name subject o).mpr (Settings.scoreIn?_eq_some_iff.mpr ?_)
    exact ⟨answers.ended, record, answers.first, answers.number, answers.finite⟩

theorem nodup_measure_model (directory : String) (s : Settings) (run : Runner) (file : String) :
    (((model directory s).measure run file).map Measurement.metric).Nodup := by
  refine Tool.Instrument.nodup_measure fun o => ?_
  rw [model]
  dsimp only
  split
  case h_1 => exact List.nodup_singleton _
  case h_2 => exact List.nodup_nil

end Readability

namespace Analysis

open Assoc (Ascending)
open Files (InputFile)
open Scoring (PolicyKind Traversal)
open Tool (Instrument Measurement Runner)

/-! ### Values of instruments -/

/-- A metric without a value gets the one that is put under it, if there is one. -/
theorem MetricValues.get?_foldl_put_iff {values : MetricValues Float} (h : Ascending values)
    {metric : Metric} (absent : Assoc.get? metric values = none) {measured : List Measurement}
    (once : (measured.map Measurement.metric).Nodup) {x : Float} :
    Assoc.get? metric (measured.foldl
        (fun values m => MetricValues.put values m.metric m.value) values) = some x ↔
      ⟨metric, x⟩ ∈ measured := by
  constructor
  · intro read
    by_cases known : metric ∈ measured.map Measurement.metric
    · obtain ⟨m, mem, rfl⟩ := List.mem_map.mp known
      have put := (Assoc.get?_foldl_update_of_mem once mem h).symm.trans read
      exact Option.some.inj put ▸ mem
    · have kept := (Assoc.get?_foldl_update_of_notMem known h).symm.trans read
      rw [absent] at kept
      cases kept
  · intro mem
    exact Assoc.get?_foldl_update_of_mem once mem h

namespace Scores

variable {run : Runner} {path : String} {s : Scores} {metric : Metric}

theorem ascending_addInstrument (h : Ascending s.values) (i : Instrument) :
    Ascending (addInstrument run path s i).values :=
  Assoc.ascending_foldl_update _ h

/-- An instrument leaves the values of all metrics alone that are not its own. -/
theorem get?_addInstrument_of_notMem (h : Ascending s.values) {i : Instrument}
    (other : metric ∉ i.metrics) :
    Assoc.get? metric (addInstrument run path s i).values = Assoc.get? metric s.values := by
  refine Assoc.get?_foldl_update_of_notMem ?_ h
  intro measured
  obtain ⟨m, mem, rfl⟩ := List.mem_map.mp measured
  exact other (List.contains_iff_mem.mp (List.mem_filter.mp mem).2)

/-- A metric of an instrument that had no value has the one that is measured. -/
theorem get?_addInstrument_iff (h : Ascending s.values)
    (absent : Assoc.get? metric s.values = none) {i : Instrument} (own : metric ∈ i.metrics)
    (once : ((i.measure run path).map Measurement.metric).Nodup) {x : Float} :
    Assoc.get? metric (addInstrument run path s i).values = some x ↔
      ⟨metric, x⟩ ∈ i.measure run path := by
  have kept := List.filter_sublist (p := fun m => i.metrics.contains m.metric)
    (l := i.measure run path)
  rw [addInstrument, MetricValues.get?_foldl_put_iff h absent (once.sublist (kept.map _)),
    List.mem_filter, List.contains_iff_mem]
  exact and_iff_left own

variable {instruments : List Instrument}

/-- Instruments leave the values of all metrics alone that are of none of them. -/
theorem get?_foldl_addInstrument_of_notMem (h : Ascending s.values)
    (other : ∀ i ∈ instruments, metric ∉ i.metrics) :
    Assoc.get? metric (instruments.foldl (addInstrument run path) s).values =
      Assoc.get? metric s.values := by
  induction instruments generalizing s with
  | nil => rfl
  | cons i instruments ih =>
      obtain ⟨first, rest⟩ := List.forall_mem_cons.mp other
      rw [List.foldl_cons, ih (ascending_addInstrument h i) rest,
        get?_addInstrument_of_notMem h first]

/-- When no two instruments share a metric, a metric that had no value has the one that its own
instrument measures, wherever that stands among the others. -/
theorem get?_foldl_addInstrument_iff (h : Ascending s.values)
    (absent : Assoc.get? metric s.values = none)
    (apart : instruments.Pairwise fun i j => List.Disjoint i.metrics j.metrics)
    (once : ∀ i ∈ instruments, ((i.measure run path).map Measurement.metric).Nodup) {x : Float} :
    Assoc.get? metric (instruments.foldl (addInstrument run path) s).values = some x ↔
      ∃ i ∈ instruments, metric ∈ i.metrics ∧ ⟨metric, x⟩ ∈ i.measure run path := by
  induction instruments generalizing s with
  | nil => simp [absent]
  | cons i instruments ih =>
      obtain ⟨others, apart⟩ := List.pairwise_cons.mp apart
      obtain ⟨first, once⟩ := List.forall_mem_cons.mp once
      have ascending : Ascending (addInstrument run path s i).values :=
        ascending_addInstrument h i
      rw [List.foldl_cons, List.exists_mem_cons_iff]
      by_cases own : metric ∈ i.metrics
      -- The value is put now, and the instruments that follow leave it alone.
      · have rest : ∀ j ∈ instruments, metric ∉ j.metrics := fun j mem => others j mem own
        rw [get?_foldl_addInstrument_of_notMem ascending rest,
          get?_addInstrument_iff h absent own first]
        refine ⟨fun mem => .inl ⟨own, mem⟩, ?_⟩
        rintro (⟨-, mem⟩ | ⟨j, mem, shared, -⟩)
        · exact mem
        · exact absurd shared (rest j mem)
      -- The metric has no value yet, so the others begin where this one began.
      · have absent' : Assoc.get? metric (addInstrument run path s i).values = none :=
          (get?_addInstrument_of_notMem h own).trans absent
        rw [ih ascending absent' apart once]
        refine ⟨.inr, ?_⟩
        rintro (⟨shared, -⟩ | measured)
        · exact absurd shared own
        · exact measured

end Scores

/-! ### Requests -/

/-- The metrics that no program measures. -/
def scoredMetrics : List Metric := [.cognitive, .testAware, .cyclomatic, .maintainability]

namespace ScoreRequest

/-- Requests that differ at most in the programs they choose. -/
structure SamePolicies (r r' : ScoreRequest) : Prop where
  byMethod : r.byMethod = r'.byMethod
  chosen : (r.chosen.filter fun source => source.policyKind?.isSome) =
    r'.chosen.filter fun source => source.policyKind?.isSome

theorem SamePolicies.policies {r r' : ScoreRequest} (h : r.SamePolicies r') :
    r.policies = r'.policies := by
  have only (xs : List MetricSource) : xs.filterMap MetricSource.policyKind? =
      (xs.filter fun source => source.policyKind?.isSome).filterMap MetricSource.policyKind? := by
    rw [List.filterMap_filter]
    refine List.filterMap_congr ?_
    intro source _
    cases source.policyKind? with
    | none => rfl
    | some kind => rfl
  rw [ScoreRequest.policies, ScoreRequest.policies, only, h.chosen, ← only]

variable (r : ScoreRequest) (directory : String) (settings : Settings)

/-- At most the rule checker and the readability model are called, in this order. -/
theorem instruments_sublist : (r.instruments directory settings).Sublist
    [Violations.checker settings.checker, Readability.model directory settings.readability] := by
  have choice (chosen : Bool) (i : Instrument) : (if chosen then [i] else []).Sublist [i] := by
    cases chosen with
    | true => exact List.Sublist.refl _
    | false => exact List.nil_sublist _
  exact (choice _ _).append (choice _ _)

/-- No two programs share a metric. -/
theorem instruments_apart : (r.instruments directory settings).Pairwise
    fun i j => List.Disjoint i.metrics j.metrics := by
  have apart : ∀ metric ∈ MetricSource.checker.metrics,
    metric ∉ MetricSource.readability.metrics := by decide
  refine List.Pairwise.sublist (r.instruments_sublist directory settings) ?_
  exact (List.pairwise_pair).mpr apart

/-- No program has a metric of a policy. -/
theorem notMem_metrics_of_mem_instruments {i : Instrument}
    (mem : i ∈ r.instruments directory settings) {metric : Metric}
    (scored : metric ∈ scoredMetrics) : metric ∉ i.metrics := by
  rcases mem_instruments_iff.mp mem with ⟨-, rfl⟩ | ⟨-, rfl⟩
  · have apart : ∀ metric ∈ scoredMetrics, metric ∉ MetricSource.checker.metrics := by decide
    exact apart metric scored
  · have apart : ∀ metric ∈ scoredMetrics, metric ∉ MetricSource.readability.metrics := by decide
    exact apart metric scored

theorem nodup_measure_of_mem_instruments {i : Instrument}
    (mem : i ∈ r.instruments directory settings) (run : Runner) (path : String) :
    ((i.measure run path).map Measurement.metric).Nodup := by
  rcases mem_instruments_iff.mp mem with ⟨-, rfl⟩ | ⟨-, rfl⟩
  · exact Violations.nodup_measure_checker _ run path
  · exact Readability.nodup_measure_model directory _ run path

end ScoreRequest

/-! ### Files -/

/-- The scores of a tree under the policies of a request, before any program is called. -/
def Scores.ofPolicies (request : ScoreRequest) (traversal : Traversal) (t : Syntax.Tree) : Scores :=
  request.policies.foldl (Scores.addPolicy traversal request.byMethod t) ⟨[], []⟩

/-- Policies give values of their own metrics only. -/
theorem Scores.ofPolicies_sound (request : ScoreRequest) (traversal : Traversal)
    (t : Syntax.Tree) : (ofPolicies request traversal t).values.Sound scoredMetrics := by
  refine foldl_addPolicy_sound ?_ traversal request.byMethod t
  intro kind _
  refine ⟨?_, fun _ => by decide⟩
  cases kind <;> decide

namespace FileScores

/-- Two scorings of a file are the same in everything that no program measures. -/
structure SameScores (a b : FileScores) : Prop where
  key : a.key = b.key
  file : a.file = b.file
  syntaxOk : a.syntaxOk = b.syntaxOk
  loc : a.loc = b.loc
  methodCount : a.methodCount = b.methodCount
  commentDensity : a.commentDensity = b.commentDensity
  methods : a.methods = b.methods
  values : ∀ metric ∈ scoredMetrics, Assoc.get? metric a.values = Assoc.get? metric b.values

variable {request : ScoreRequest} {conditions : Conditions} {f : InputFile} {t : Syntax.Tree}
  {metric : Metric}

/-- The values of the policies are what they were before any program was called. -/
theorem get?_values_ofTree_of_scored (scored : metric ∈ scoredMetrics) :
    Assoc.get? metric (ofTree request conditions f t).values =
      Assoc.get? metric
        (Scores.ofPolicies request conditions.settings.traversal t).values :=
  Scores.get?_foldl_addInstrument_of_notMem (Scores.ofPolicies_sound request _ t).ascending
    fun _ mem => request.notMem_metrics_of_mem_instruments _ _ mem scored

/-- Any other value is there just when the instrument of its metric measures it. -/
theorem get?_values_ofTree_iff (measured : metric ∉ scoredMetrics) {x : Float} :
    Assoc.get? metric (ofTree request conditions f t).values = some x ↔
      ∃ i ∈ request.instruments conditions.directory conditions.settings,
        metric ∈ i.metrics ∧ ⟨metric, x⟩ ∈ i.measure conditions.run f.path := by
  have sound := Scores.ofPolicies_sound request conditions.settings.traversal t
  refine Scores.get?_foldl_addInstrument_iff sound.ascending ?_
    (request.instruments_apart _ _)
    (fun _ mem => request.nodup_measure_of_mem_instruments _ _ mem _ _)
  rw [Option.eq_none_iff_forall_ne_some]
  intro x present
  exact measured (sound.sound _ (Assoc.mem_of_get? present)).1

theorem methods_ofTree_eq : (ofTree request conditions f t).methods =
    (Scores.ofPolicies request conditions.settings.traversal t).methods.map Prod.snd :=
  congrArg (List.map Prod.snd) (methods_foldl_addInstrument conditions.run f.path _ _)

end FileScores

/-! ### Values of a file -/

namespace ScoreRequest

/-- The value of a metric for a file, if the file has a tree and a value of the metric. -/
def valueOf? (request : ScoreRequest) (p : Provider) (conditions : Conditions) (f : InputFile)
    (metric : Metric) : Option Float :=
  (FileScores.ofFile? p request conditions f).bind fun scores => Assoc.get? metric scores.values

variable {request : ScoreRequest} {p : Provider} {conditions : Conditions} {f : InputFile}
  {metric : Metric} {x : Float}

/-- A value of no policy is that of an instrument, for a file that has a tree. -/
theorem valueOf?_eq_some_iff (measured : metric ∉ scoredMetrics) :
    request.valueOf? p conditions f metric = some x ↔
      p.Parses f ∧
        ∃ i ∈ request.instruments conditions.directory conditions.settings,
          metric ∈ i.metrics ∧ ⟨metric, x⟩ ∈ i.measure conditions.run f.path := by
  rw [valueOf?, FileScores.ofFile?, Provider.parses_iff]
  cases p.treeOf? f with
  | none => simp
  | some t => simp [FileScores.get?_values_ofTree_iff measured]

/-- The rule checker's metrics have the values that it gives. -/
theorem valueOf?_checker_iff (reported : metric ∈ MetricSource.checker.metrics) :
    request.valueOf? p conditions f metric = some x ↔
      p.Parses f ∧ MetricSource.checker ∈ request.sources ∧
        conditions.settings.checker.Gives conditions.run f.path metric x := by
  have measured : ∀ metric ∈ MetricSource.checker.metrics, metric ∉ scoredMetrics := by decide
  have other : ∀ metric ∈ MetricSource.checker.metrics,
    metric ∉ MetricSource.readability.metrics := by decide
  rw [valueOf?_eq_some_iff (measured metric reported)]
  refine and_congr_right fun _ => ?_
  constructor
  · rintro ⟨i, mem, own, value⟩
    rcases mem_instruments_iff.mp mem with ⟨chosen, rfl⟩ | ⟨-, rfl⟩
    · exact ⟨chosen, (Violations.mem_measure_checker_iff reported).mp value⟩
    · exact absurd own (other metric reported)
  · rintro ⟨chosen, gives⟩
    exact ⟨_, mem_instruments_iff.mpr (.inl ⟨chosen, rfl⟩), reported,
      (Violations.mem_measure_checker_iff reported).mpr gives⟩

/-- The readability metric has the value that the model gives. -/
theorem valueOf?_readability_iff :
    request.valueOf? p conditions f .readability = some x ↔
      p.Parses f ∧ MetricSource.readability ∈ request.sources ∧
        conditions.settings.readability.Gives conditions.directory conditions.run f.path x := by
  rw [valueOf?_eq_some_iff (by decide)]
  refine and_congr_right fun _ => ?_
  constructor
  · rintro ⟨i, mem, own, value⟩
    rcases mem_instruments_iff.mp mem with ⟨-, rfl⟩ | ⟨chosen, rfl⟩
    · have other : Metric.readability ∉ MetricSource.checker.metrics := by decide
      exact absurd own other
    · exact ⟨chosen, Readability.mem_measure_model_iff.mp value⟩
  · rintro ⟨chosen, gives⟩
    exact ⟨_, mem_instruments_iff.mpr (.inr ⟨chosen, rfl⟩), List.mem_cons_self,
      Readability.mem_measure_model_iff.mpr gives⟩

end ScoreRequest

/-- Whatever programs are called and answer, the scores of a file are the same. -/
theorem FileScores.sameScores_ofTree {r r' : ScoreRequest} (same : r.SamePolicies r')
    (conditions : Conditions) (run' : Runner) (f : InputFile) (t : Syntax.Tree) :
    SameScores (ofTree r conditions f t) (ofTree r' { conditions with run := run' } f t) := by
  have policies : Scores.ofPolicies r conditions.settings.traversal t =
      Scores.ofPolicies r' conditions.settings.traversal t := by
    rw [Scores.ofPolicies, Scores.ofPolicies, same.policies, same.byMethod]
  refine ⟨rfl, rfl, rfl, rfl, rfl, rfl, ?_, fun metric scored => ?_⟩
  · rw [methods_ofTree_eq, methods_ofTree_eq, policies]
  · rw [get?_values_ofTree_of_scored scored, get?_values_ofTree_of_scored scored, policies]

/-- No program has a say in the scores of a file or in the values of another program, and none that
fails gives a value.

Wherever trees come from, two requests with the same policies score any file alike, whichever
programs they choose and whatever these answer. The values of the rule checker depend on its own
answer alone, and so does the score of the readability model. A value of the checker is there
exactly when the file can be read and parsed, the checker is chosen, and it ended with 0 or 4 and
printed a report that can be read and has values of the metric; a readability score, exactly when
the file can be read and parsed, the model is chosen, and it ended with 0 and printed a finite
number in the first record of the file. -/
theorem instruments_keep_apart (p : Provider) (conditions : Conditions) (f : InputFile) :
    (∀ (r r' : ScoreRequest) (run' : Runner), r.SamePolicies r' →
      Option.Rel FileScores.SameScores (FileScores.ofFile? p r conditions f)
        (FileScores.ofFile? p r' { conditions with run := run' } f)) ∧
    (∀ (r r' : ScoreRequest) (run' : Runner),
      (MetricSource.checker ∈ r.sources ↔ MetricSource.checker ∈ r'.sources) →
      conditions.run (conditions.settings.checker.call f.path) =
        run' (conditions.settings.checker.call f.path) →
      ∀ metric ∈ MetricSource.checker.metrics, r.valueOf? p conditions f metric =
        r'.valueOf? p { conditions with run := run' } f metric) ∧
    (∀ (r r' : ScoreRequest) (run' : Runner),
      (MetricSource.readability ∈ r.sources ↔ MetricSource.readability ∈ r'.sources) →
      (∀ path name, Readability.subject? conditions.directory f.path = some (path, name) →
        conditions.run (conditions.settings.readability.call path) =
          run' (conditions.settings.readability.call path)) →
      r.valueOf? p conditions f .readability =
        r'.valueOf? p { conditions with run := run' } f .readability) ∧
    (∀ (r : ScoreRequest), ∀ metric ∈ MetricSource.checker.metrics, ∀ x,
      r.valueOf? p conditions f metric = some x ↔
        p.Parses f ∧ MetricSource.checker ∈ r.sources ∧
          conditions.settings.checker.Gives conditions.run f.path metric x) ∧
    ∀ (r : ScoreRequest) x, r.valueOf? p conditions f .readability = some x ↔
      p.Parses f ∧ MetricSource.readability ∈ r.sources ∧
        conditions.settings.readability.Gives conditions.directory conditions.run f.path x := by
  refine ⟨?_, ?_, ?_, ?_, ?_⟩
  · intro r r' run' same
    rw [FileScores.ofFile?, FileScores.ofFile?]
    cases p.treeOf? f with
    | none => exact .none
    | some t => exact .some (FileScores.sameScores_ofTree same conditions run' f t)
  · intro r r' run' chosen same metric reported
    refine Option.ext fun x => ?_
    rw [ScoreRequest.valueOf?_checker_iff reported, ScoreRequest.valueOf?_checker_iff reported,
      chosen]
    refine and_congr_right fun _ => and_congr_right fun _ => ?_
    exact ⟨fun gives => gives.of_same_answer same, fun gives => gives.of_same_answer same.symm⟩
  · intro r r' run' chosen same
    refine Option.ext fun x => ?_
    rw [ScoreRequest.valueOf?_readability_iff, ScoreRequest.valueOf?_readability_iff, chosen]
    refine and_congr_right fun _ => and_congr_right fun _ => ?_
    refine ⟨fun gives => gives.of_same_answer same, fun gives => gives.of_same_answer ?_⟩
    intro path name subject
    exact (same path name subject).symm
  · intro r metric reported x
    exact ScoreRequest.valueOf?_checker_iff reported
  · intro r x
    exact ScoreRequest.valueOf?_readability_iff

/-! ### A program that is killed -/

def smallFile : InputFile :=
  ⟨"/d/A.java", ["d", "A.java"], .ok (Text.Utf8.encode "class A \x7b\x7d")⟩

/-- A report of a cognitive complexity of 17. -/
def oneViolation : String :=
  "<file name='A.java'><violation rule='CognitiveComplexity'>" ++
    "It has a cognitive complexity of 17.</violation></file>"

/-- The checker finds violations, and the model prints a score and is killed. -/
def modelKilled : Conditions where
  settings := .default
  directory := "/"
  run call :=
    if call.program = "pmd" then .ok ⟨some 4, oneViolation, ""⟩
    else .ok ⟨none, "A.java\t0.5\n", ""⟩

/-- All programs are called between the policies. -/
def withPrograms : ScoreRequest := ⟨[.checker, .cognitive, .readability, .cyclomatic], true⟩

/-- The scores are those of a run in which no program is called or could be started. The value of
the checker is there, and the printed score is not. -/
theorem instruments_keep_apart_killed :
    Option.Rel FileScores.SameScores (FileScores.ofFile? .java withPrograms modelKilled smallFile)
      (FileScores.ofFile? .java ⟨[.cognitive, .cyclomatic], true⟩
        { modelKilled with run := fun _ => .error "" } smallFile) ∧
    withPrograms.valueOf? .java modelKilled smallFile .pmdCognitive = some (Float.ofNat 17) ∧
    withPrograms.valueOf? .java modelKilled smallFile .readability = none := by
  obtain ⟨scores, -, -, checker, model⟩ := instruments_keep_apart .java modelKilled smallFile
  refine ⟨scores _ _ _ ⟨rfl, by decide⟩, ?_, ?_⟩
  · refine (checker withPrograms .pmdCognitive (by decide) _).mpr ⟨⟨_, _, rfl, rfl⟩, by decide, ?_⟩
    refine ⟨⟨some 4, oneViolation, ""⟩, [⟨"A.java", "CognitiveComplexity",
      "It has a cognitive complexity of 17.".toList⟩], 17, ⟨rfl, .inr rfl, ?_, ?_⟩, rfl⟩
    · decide +kernel
    · decide +kernel
  · rw [Option.eq_none_iff_forall_ne_some]
    intro x present
    obtain ⟨-, -, path, name, o, record, -, answers⟩ := (model withPrograms x).mp present
    have killed : o.status = none := by
      cases answers.started
      rfl
    exact absurd (killed.symm.trans answers.ended) (by decide)

end Analysis

end SuiteMetrics
