import SuiteMetrics.Proofs.Gathering

/-!
The statistics of an analysis agree with its rows.

An analysis lists rows and gives statistics of groups. `RowsAgree` says what the statistics are in
terms of the listed rows alone, and `summary_agrees_with_rows` says that they are this for every
score analysis and every import.
-/

namespace SuiteMetrics.Analysis

/-! ### Agreement -/

/-- The values of a slot in entries: those under its metric in the entries of its group. -/
def valuesAt (slot : Slot) (entries : List Entry) : List Float :=
  (entries.filter fun e => e.key = slot.key).filterMap fun e => Assoc.get? slot.metric e.values

/-- The number of values in entries without a full key. -/
def shortValues (keyLength : Nat) (entries : List Entry) : Nat :=
  ((entries.filter fun e => e.key.length < keyLength).map fun e => e.values.length).sum

theorem shortValues_cons (keyLength : Nat) (e : Entry) (entries : List Entry) :
    shortValues keyLength (e :: entries) =
      (if e.key.length < keyLength then e.values.length else 0) + shortValues keyLength entries := by
  unfold shortValues
  rw [List.filter_cons]
  by_cases short : e.key.length < keyLength
  · rw [if_pos short, if_pos (decide_eq_true short), List.map_cons, List.sum_cons]
  · rw [if_neg short, if_neg (by rwa [decide_eq_true_eq]), Nat.zero_add]

/-- Statistics of groups and a number of refused values agree with entries. -/
structure RowsAgree (keyLength : Nat) (metrics : List Metric) (entries : List Entry)
    (rows : List SummaryRow) (refused : Nat) : Prop where
  /-- The values of the entries are numbers under metrics asked for. -/
  sound : ∀ e ∈ entries, e.values.Sound metrics
  /-- The rows ascend by group and metric, so no two are about the same. -/
  ascending : (rows.map fun r => Slot.mk r.key r.metric).Pairwise (· < ·)
  /-- There are rows for every metric asked for and the full key of every entry, and no others. -/
  slots : ∀ key metric, (∃ r ∈ rows, r.key = key ∧ r.metric = metric) ↔
    metric ∈ metrics ∧ key.length = keyLength ∧ ∃ e ∈ entries, e.key = key
  /-- The statistics of a row are those of the values of the entries. -/
  summary : ∀ r ∈ rows, r.summary = Summary.ofValues? (valuesAt ⟨r.key, r.metric⟩ entries)
  /-- A row counts every value once. -/
  count : ∀ r ∈ rows, ∀ s, r.summary = some s →
    s.count = (valuesAt ⟨r.key, r.metric⟩ entries).length
  /-- Only a row for which no entry has a value is without statistics. -/
  absent : ∀ r ∈ rows, r.summary = none ↔
    ∀ e ∈ entries, e.key = r.key → Assoc.get? r.metric e.values = none
  /-- The values of entries without a full key are refused, and counted in 64 bits. -/
  skipped : refused = shortValues keyLength entries % 2 ^ 64
  /-- As long as there are fewer than 2 ^ 61 entries, no count is lost. -/
  skipped_of_few : entries.length < 2 ^ 61 → refused = shortValues keyLength entries

/-! ### What entries contribute together -/

section Entries

variable {ρ : Type} {g : Gathering ρ} {entries : List Entry}

/-- Entries contribute to the slots of their full keys and the metrics asked for. -/
theorem any_isFor_flatMap_contributions (sound : ∀ e ∈ entries, e.values.Sound g.metrics)
    (slot : Slot) :
    (entries.flatMap g.contributions).any (Contribution.isFor slot) = true ↔
      slot.metric ∈ g.metrics ∧ slot.key.length = g.keyLength ∧
        ∃ e ∈ entries, e.key = slot.key := by
  rw [List.any_flatMap, List.any_eq_true]
  constructor
  · rintro ⟨e, mem, any⟩
    obtain ⟨asked, full, same⟩ := (g.any_isFor_contributions (sound e mem) slot).mp any
    exact ⟨asked, full, e, mem, same⟩
  · rintro ⟨asked, full, e, mem, same⟩
    exact ⟨e, mem, (g.any_isFor_contributions (sound e mem) slot).mpr ⟨asked, full, same⟩⟩

/-- What entries contribute to a slot of a full key are their values. -/
theorem flatMap_valuesFor_flatMap_contributions
    (sound : ∀ e ∈ entries, e.values.Sound g.metrics) {slot : Slot}
    (full : slot.key.length = g.keyLength) :
    (entries.flatMap g.contributions).flatMap (Contribution.valuesFor slot) =
      valuesAt slot entries := by
  rw [List.flatMap_assoc, valuesAt]
  induction entries with
  | nil => rfl
  | cons e r ih =>
      rw [List.flatMap_cons, ih fun e mem => sound e (List.mem_cons_of_mem _ mem),
        g.flatMap_valuesFor_contributions (sound e List.mem_cons_self) full, List.filter_cons]
      by_cases same : e.key = slot.key
      · rw [if_pos same, if_pos (decide_eq_true same), List.filterMap_cons]
        cases Assoc.get? slot.metric e.values with
        | none => rfl
        | some value => rfl
      · rw [if_neg same, if_neg (by rwa [decide_eq_true_eq])]
        rfl

/-- The number of values of entries that are refused. -/
theorem countP_isRefusal_flatMap_contributions
    (sound : ∀ e ∈ entries, e.values.Sound g.metrics)
    (length : ∀ e ∈ entries, e.key.length ≤ g.keyLength) :
    (entries.flatMap g.contributions).countP Contribution.isRefusal =
      shortValues g.keyLength entries := by
  induction entries with
  | nil => rfl
  | cons e r ih =>
      rw [List.flatMap_cons, List.countP_append,
        ih (fun e mem => sound e (List.mem_cons_of_mem _ mem))
          (fun e mem => length e (List.mem_cons_of_mem _ mem)),
        g.countP_isRefusal_contributions (sound e List.mem_cons_self)
          (length e List.mem_cons_self), shortValues_cons]

/-- No entry has more values than there are metrics. -/
theorem MetricValues.Sound.length_le {metrics : List Metric} {values : MetricValues Float}
    (h : values.Sound metrics) : values.length ≤ Metric.all.length := by
  have among : values.map Prod.fst ⊆ Metric.all := by
    intro metric _
    cases metric <;> decide
  have le := ((Assoc.nodup_keys h.ascending).subperm among).length_le
  rwa [List.length_map] at le

theorem shortValues_lt (sound : ∀ e ∈ entries, e.values.Sound g.metrics)
    (few : entries.length < 2 ^ 61) : shortValues g.keyLength entries < 2 ^ 64 := by
  have each : ∀ n ∈ (entries.filter fun e => e.key.length < g.keyLength).map
      (fun e => e.values.length), n ≤ 7 := by
    rw [List.forall_mem_map]
    intro e mem
    exact (sound e (List.mem_of_mem_filter mem)).length_le
  have total := List.sum_le_card_nsmul _ 7 each
  rw [List.length_map, smul_eq_mul] at total
  have kept := List.length_filter_le (fun e : Entry => e.key.length < g.keyLength) entries
  unfold shortValues
  omega

variable {a : Aggregator}

/-- A bucket holds the values of its slot in the entries. -/
theorem perm_valuesAt_of_mem_buckets (sound : ∀ e ∈ entries, e.values.Sound g.metrics)
    (holds : a.Holds (entries.flatMap g.contributions)) {slot : Slot} {bucket : Bucket}
    (mem : (slot, bucket) ∈ a.buckets) :
    (slot.metric ∈ g.metrics ∧ slot.key.length = g.keyLength ∧ ∃ e ∈ entries, e.key = slot.key) ∧
      bucket.values.Perm (valuesAt slot entries) := by
  have held := holds.values slot
  rw [(Assoc.mem_iff_get? holds.ascending).mp mem, Contribution.collected] at held
  split at held
  case isTrue any =>
      have place := (any_isFor_flatMap_contributions sound slot).mp any
      have same := Multiset.coe_eq_coe.mp (Option.some.inj held)
      rw [flatMap_valuesFor_flatMap_contributions sound place.2.1] at same
      exact ⟨place, same⟩
  case isFalse => cases held

/-- There is a bucket for every metric asked for and the full key of every entry. -/
theorem exists_mem_buckets (sound : ∀ e ∈ entries, e.values.Sound g.metrics)
    (holds : a.Holds (entries.flatMap g.contributions)) {slot : Slot}
    (place : slot.metric ∈ g.metrics ∧ slot.key.length = g.keyLength ∧
      ∃ e ∈ entries, e.key = slot.key) : ∃ bucket, (slot, bucket) ∈ a.buckets := by
  have held := holds.values slot
  rw [Contribution.collected, if_pos ((any_isFor_flatMap_contributions sound slot).mpr place)]
    at held
  obtain ⟨bucket, read, -⟩ := Option.map_eq_some_iff.mp held
  exact ⟨bucket, Assoc.mem_of_get? read⟩

theorem valuesAt_eq_nil_iff {slot : Slot} :
    valuesAt slot entries = [] ↔
      ∀ e ∈ entries, e.key = slot.key → Assoc.get? slot.metric e.values = none := by
  rw [valuesAt, List.filterMap_eq_nil_iff]
  constructor
  · intro none e mem same
    exact none e (List.mem_filter.mpr ⟨mem, decide_eq_true same⟩)
  · intro none e mem
    obtain ⟨mem, same⟩ := List.mem_filter.mp mem
    exact none e mem (of_decide_eq_true same)

/-- An aggregator that holds the contributions of entries agrees with them. -/
theorem rowsAgree_of_holds (sound : ∀ e ∈ entries, e.values.Sound g.metrics)
    (length : ∀ e ∈ entries, e.key.length ≤ g.keyLength)
    (holds : a.Holds (entries.flatMap g.contributions)) :
    RowsAgree g.keyLength g.metrics entries a.summaries a.skipped := by
  have summary : ∀ r ∈ a.summaries,
      r.summary = Summary.ofValues? (valuesAt ⟨r.key, r.metric⟩ entries) := by
    intro r mem
    obtain ⟨⟨slot, bucket⟩, filed, rfl⟩ := List.mem_map.mp mem
    exact Summary.ofValues?_eq_of_perm (perm_valuesAt_of_mem_buckets sound holds filed).2
  have skipped : a.skipped = shortValues g.keyLength entries % 2 ^ 64 := by
    rw [holds.skipped, countP_isRefusal_flatMap_contributions sound length]
  refine ⟨sound, ?_, fun key metric => ⟨?_, fun place => ?_⟩, summary, ?_, ?_, skipped, ?_⟩
  · rw [Aggregator.summaries, List.map_map]
    exact List.pairwise_map.mpr holds.ascending
  · rintro ⟨r, mem, rfl, rfl⟩
    obtain ⟨⟨slot, bucket⟩, filed, rfl⟩ := List.mem_map.mp mem
    exact (perm_valuesAt_of_mem_buckets sound holds filed).1
  · obtain ⟨bucket, mem⟩ : ∃ bucket, (Slot.mk key metric, bucket) ∈ a.buckets :=
      exists_mem_buckets sound holds place
    exact ⟨_, List.mem_map_of_mem mem, rfl, rfl⟩
  · intro r mem s present
    exact Summary.count_of_ofValues? ((summary r mem).symm.trans present)
  · intro r mem
    rw [summary r mem, Summary.ofValues?_eq_none_iff, valuesAt_eq_nil_iff]
  · intro few
    rw [skipped, Nat.mod_eq_of_lt (shortValues_lt sound few)]

end Entries

/-! ### Analyses -/

/-- Consistent work agrees with its rows in any order. -/
theorem Gathered.Consistent.rowsAgree {ρ : Type} {g : Gathering ρ} {p : Gathered ρ}
    (h : p.Consistent g) {rows : List ρ} (perm : rows.Perm p.rows) :
    RowsAgree g.keyLength g.metrics (rows.map g.entry) p.aggregator.summaries
      p.aggregator.skipped := by
  refine rowsAgree_of_holds ?_ ?_ (h.holds.of_perm ((perm.map g.entry).flatMap_right _).symm)
  · rw [List.forall_mem_map]
    intro row mem
    exact h.values row (perm.mem_iff.mp mem)
  · rw [List.forall_mem_map]
    intro row mem
    exact h.length row (perm.mem_iff.mp mem)

/-- In every score analysis, wherever its trees come from, and in every import, however the files
are cut into pieces, the statistics of the groups are those of the listed rows: there is a row for
every metric asked for and the full key of every listed entry, it has the statistics of exactly the
values listed under them, and the values of entries without a full key are counted as refused, in
64 bits. -/
theorem summary_agrees_with_rows :
    (∀ (p : Provider) (request : ScoreRequest) (conditions : Conditions) (files : Schedule),
      let a := ScoreAnalysis.ofGathered request conditions
        ((request.gathering p conditions).run files)
      RowsAgree conditions.settings.labels.length request.metrics
        (a.files.map FileScores.toEntry) a.summary a.skippedRecords) ∧
    (∀ (labels : List String) (files : Schedule),
      let a := ImportAnalysis.ofGathered labels ((importGathering labels.length).run files)
      RowsAgree labels.length [.pmdCognitive, .pmdCyclomatic]
        (a.reports.map ImportedReport.toEntry) a.summary a.skippedRecords) := by
  constructor
  · intro p request conditions files
    have consistent := Gathered.Consistent.run (request.gathering_sound p conditions) files
    exact consistent.rowsAgree (List.mergeSort_perm _ _)
  · intro labels files
    have consistent := Gathered.Consistent.run (importGathering_sound labels.length) files
    exact consistent.rowsAgree (List.mergeSort_perm _ _)

end SuiteMetrics.Analysis
