import SuiteMetrics.Proofs.Contribution
import SuiteMetrics.Proofs.MeasuredValues

/-!
Gathering on several workers.

The rows of an analysis and the statistics of its groups come about side by side: a row is appended
to a list, and its values are put into an aggregator one by one, on several workers whose parts are
merged. Whatever the `Schedule` of that work, the aggregator holds the contributions of exactly the
rows that have been gathered (`Gathered.Consistent.run`).
-/

namespace SuiteMetrics.Analysis

open Files (InputFile)

/-! ### What an entry contributes -/

namespace Gathering

variable {ρ : Type} (g : Gathering ρ)

/-- What is done to an aggregator when it collects an entry. -/
def operations (e : Entry) : List Operation :=
  g.metrics.map (.declare e.key) ++ e.values.map fun v => .add ⟨e.key, v.1, v.2⟩

/-- What an entry contributes. -/
def contributions (e : Entry) : List Contribution :=
  (g.operations e).flatMap (Operation.contributions g.keyLength)

theorem collect_eq_foldl_apply (a : Aggregator) (e : Entry) :
    g.collect a e = (g.operations e).foldl Operation.apply a := by
  rw [operations, List.foldl_append, List.foldl_map, List.foldl_map]
  rfl

variable {g} {e : Entry}

/-- An entry with a full key sets up a bucket for every metric and files its values. -/
theorem contributions_of_full (full : e.key.length = g.keyLength)
    (sound : e.values.Sound g.metrics) :
    g.contributions e = (g.metrics.map fun m => .filed ⟨e.key, m⟩ []) ++
      e.values.map fun v => .filed ⟨e.key, v.1⟩ [v.2] := by
  rw [contributions, operations, List.flatMap_append, List.flatMap_map, List.flatMap_map,
    List.map_eq_flatMap, List.map_eq_flatMap]
  congr 1
  · refine List.flatMap_congr ?_
    intro m _
    exact if_pos full
  · refine List.flatMap_congr ?_
    intro v mem
    exact congrArg (List.singleton ·) (if_pos ⟨full, (sound.sound v mem).2⟩)

/-- The values of an entry without a full key are refused. -/
theorem contributions_of_short (short : e.key.length ≠ g.keyLength) :
    g.contributions e = e.values.map fun _ => .refusal := by
  rw [contributions, operations, List.flatMap_append, List.flatMap_map, List.flatMap_map,
    List.map_eq_flatMap]
  have undeclared : (g.metrics.flatMap fun m =>
      Operation.contributions g.keyLength (.declare e.key m)) = [] :=
    List.flatMap_eq_nil_iff.mpr fun m _ => if_neg short
  rw [undeclared, List.nil_append]
  refine List.flatMap_congr ?_
  intro v _
  exact congrArg (List.singleton ·) (if_neg fun full => short full.1)

/-- An entry contributes to the slots of its full key and the metrics asked for. -/
theorem any_isFor_contributions (sound : e.values.Sound g.metrics) (slot : Slot) :
    (g.contributions e).any (Contribution.isFor slot) = true ↔
      slot.metric ∈ g.metrics ∧ slot.key.length = g.keyLength ∧ e.key = slot.key := by
  by_cases full : e.key.length = g.keyLength
  · rw [contributions_of_full full sound, List.any_append, List.any_map, List.any_map,
      Bool.or_eq_true, List.any_eq_true, List.any_eq_true]
    constructor
    · rintro (⟨m, mem, same⟩ | ⟨v, mem, same⟩)
      · obtain rfl : Slot.mk e.key m = slot := of_decide_eq_true same
        exact ⟨mem, full, rfl⟩
      · obtain rfl : Slot.mk e.key v.1 = slot := of_decide_eq_true same
        exact ⟨(sound.sound v mem).1, full, rfl⟩
    · rintro ⟨asked, -, same⟩
      refine .inl ⟨slot.metric, asked, decide_eq_true ?_⟩
      rw [same]
  · rw [contributions_of_short full, List.any_map, List.any_eq_true]
    constructor
    · rintro ⟨v, -, impossible⟩
      cases impossible
    · rintro ⟨-, length, same⟩
      exact absurd (same ▸ length) full

/-- Of values in ascending order, at most one is for a slot. -/
theorem flatMap_filed_values {values : MetricValues Float} (h : Assoc.Ascending values)
    (slot : Slot) :
    (values.flatMap fun v => Contribution.valuesFor slot (.filed ⟨slot.key, v.1⟩ [v.2])) =
      (Assoc.get? slot.metric values).toList := by
  induction values with
  | nil => rfl
  | cons v r ih =>
      obtain ⟨metric, value⟩ := v
      obtain ⟨first, rest⟩ := List.pairwise_cons.mp h
      rw [List.flatMap_cons, ih rest, Assoc.get?_cons]
      by_cases same : slot.metric = metric
      · subst same
        rw [if_pos rfl, Assoc.get?_eq_none_of_lt first]
        exact congrArg (· ++ []) (if_pos rfl)
      · have ne : Slot.mk slot.key metric ≠ slot := fun h => same (congrArg Slot.metric h).symm
        rw [if_neg same]
        exact congrArg (· ++ _) (if_neg ne)

/-- What an entry contributes to a slot of a full key is its value for the metric. -/
theorem flatMap_valuesFor_contributions (sound : e.values.Sound g.metrics) {slot : Slot}
    (full : slot.key.length = g.keyLength) :
    (g.contributions e).flatMap (Contribution.valuesFor slot) =
      if e.key = slot.key then (Assoc.get? slot.metric e.values).toList else [] := by
  split
  case isTrue same =>
      rw [contributions_of_full (same ▸ full) sound, List.flatMap_append, List.flatMap_map,
        List.flatMap_map, same, flatMap_filed_values sound.ascending]
      have empty : (g.metrics.flatMap fun m =>
          Contribution.valuesFor slot (.filed ⟨slot.key, m⟩ [])) = [] :=
        List.flatMap_eq_nil_iff.mpr fun m _ => ite_self []
      rw [empty, List.nil_append]
  case isFalse ne =>
      refine Contribution.flatMap_valuesFor_eq_nil (Bool.eq_false_iff.mpr ?_)
      intro any
      obtain ⟨-, -, same⟩ := (any_isFor_contributions sound slot).mp any
      exact ne same

/-- The number of values of an entry that are refused. -/
theorem countP_isRefusal_contributions (sound : e.values.Sound g.metrics)
    (length : e.key.length ≤ g.keyLength) :
    (g.contributions e).countP Contribution.isRefusal =
      if e.key.length < g.keyLength then e.values.length else 0 := by
  split
  case isTrue short =>
      rw [contributions_of_short short.ne, List.countP_map]
      exact List.countP_eq_length.mpr fun _ _ => rfl
  case isFalse long =>
      rw [contributions_of_full (le_antisymm length (not_lt.mp long)) sound,
        List.countP_eq_zero]
      intro c mem
      rcases List.mem_append.mp mem with mem | mem
      · obtain ⟨m, -, rfl⟩ := List.mem_map.mp mem
        exact Bool.false_ne_true
      · obtain ⟨v, -, rfl⟩ := List.mem_map.mp mem
        exact Bool.false_ne_true

end Gathering

/-! ### Schedules -/

/-- How a list of files is cut into pieces, and how the work on the pieces is put together. -/
inductive Schedule where
  /-- One after another. -/
  | chunk (files : List InputFile)
  /-- Two parts of the work, merged. -/
  | join (p q : Schedule)

namespace Gathering

variable {ρ : Type}

/-- The work on files in the pieces of a schedule. One chunk is the work of one worker on all files. -/
def run (g : Gathering ρ) : Schedule → Gathered ρ
  | .chunk files => g.ofFiles files
  | .join p q => (g.run p).merge (g.run q)

/-- The rows of a gathering have sound values and keys that are not too long. -/
structure Sound (g : Gathering ρ) : Prop where
  values : ∀ f row, g.row? f = some row → (g.entry row).values.Sound g.metrics
  length : ∀ f row, g.row? f = some row → (g.entry row).key.length ≤ g.keyLength

end Gathering

/-- What has been gathered is consistent: the rows are sound, and the aggregator holds what they
contribute. -/
structure Gathered.Consistent {ρ : Type} (g : Gathering ρ) (p : Gathered ρ) : Prop where
  keyLength : p.aggregator.keyLength = g.keyLength
  values : ∀ row ∈ p.rows, (g.entry row).values.Sound g.metrics
  length : ∀ row ∈ p.rows, (g.entry row).key.length ≤ g.keyLength
  holds : p.aggregator.Holds ((p.rows.map g.entry).flatMap g.contributions)

namespace Gathered.Consistent

variable {ρ : Type} {g : Gathering ρ} {p q : Gathered ρ}

theorem start (g : Gathering ρ) : Consistent g g.start where
  keyLength := rfl
  values _ mem := absurd mem List.not_mem_nil
  length _ mem := absurd mem List.not_mem_nil
  holds := .new g.keyLength

/-- One more file keeps the work consistent. -/
theorem add (h : p.Consistent g) (sound : g.Sound) (f : InputFile) :
    (g.add p f).Consistent g := by
  rw [Gathering.add]
  split
  case h_1 => exact h
  case h_2 row used =>
      obtain ⟨keyLength, holds⟩ := h.holds.foldl_apply (g.operations (g.entry row))
      rw [← g.collect_eq_foldl_apply, h.keyLength] at keyLength holds
      refine ⟨keyLength, ?_, ?_, ?_⟩
      · rw [List.forall_mem_append]
        exact ⟨h.values, List.forall_mem_singleton.mpr (sound.values f row used)⟩
      · rw [List.forall_mem_append]
        exact ⟨h.length, List.forall_mem_singleton.mpr (sound.length f row used)⟩
      · rw [List.map_append, List.flatMap_append, List.map_singleton, List.flatMap_singleton]
        exact holds

/-- Merging keeps the work consistent. -/
theorem merge (hp : p.Consistent g) (hq : q.Consistent g) : (p.merge q).Consistent g where
  keyLength := hp.keyLength
  values := List.forall_mem_append.mpr ⟨hp.values, hq.values⟩
  length := List.forall_mem_append.mpr ⟨hp.length, hq.length⟩
  holds := by
    rw [Gathered.merge, List.map_append, List.flatMap_append]
    exact hp.holds.merge hq.holds

/-- However the files are cut into pieces, the work on them is consistent. -/
theorem run (sound : g.Sound) (s : Schedule) : (g.run s).Consistent g := by
  induction s with
  | chunk files =>
      refine List.foldlRecOn (motive := Gathered.Consistent g) files g.add (.start g) ?_
      intro p consistent f _
      exact consistent.add sound f
  | join p q ihp ihq => exact ihp.merge ihq

end Gathered.Consistent

theorem length_key_le (f : InputFile) (length : Nat) : (f.key length).length ≤ length :=
  List.length_take_le _ _

theorem ScoreRequest.gathering_sound (request : ScoreRequest) (p : Provider)
    (conditions : Conditions) : (request.gathering p conditions).Sound where
  values _ _ used := FileScores.sound used
  length f row used := by
    obtain ⟨t, -, rfl⟩ := Option.map_eq_some_iff.mp used
    exact length_key_le f _

theorem importGathering_sound (keyLength : Nat) : (importGathering keyLength).Sound where
  values _ _ used := ImportedReport.sound used
  length f row used := by
    obtain ⟨text, -, rfl⟩ := Option.map_eq_some_iff.mp used
    exact length_key_le f _

end SuiteMetrics.Analysis
