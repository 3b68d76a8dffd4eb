import SuiteMetrics.Analysis.Soundness
import SuiteMetrics.Proofs.Gathering

/-!
Every schedule does the work of one pass.

The files of an analysis may be cut into any pieces, each piece is worked on from the empty work on,
and the parts are merged in any shape, with empty parts anywhere. A `Schedule` is such a way, and
its `files` are the pieces in order. Whether a file is added to the right part before parts are
merged or afterwards makes no difference (`Gathered.merge_add`, `SyntaxPartial.merge_add`), so every
schedule ends with the work of one pass over its files (`Schedule.work_eq_foldl`): the same rows in
the same order, the same groups with their values in the same order, the same number of refusals.
All three analyses therefore give the result of one pass (`analyses_of_schedule`).
-/

namespace SuiteMetrics

open Assoc (Ascending)

/-! ### Merging aggregators -/

theorem Bucket.merge_empty (b : Bucket) : b.merge .empty = b := rfl

theorem Bucket.merge_record (b other : Bucket) (value : Float) :
    b.merge (other.record value) = (b.merge other).record value := rfl

namespace Aggregator

variable {a b : Aggregator}

theorem merge_new (a : Aggregator) (keyLength : Nat) : a.merge (.new keyLength) = a :=
  congrArg (fun refused => { a with refused }) (UInt64.add_zero a.refused)

/-- A change of one bucket may be made in the right aggregator or in the merged one. -/
theorem merge_update {change : Bucket → Bucket} (next : ∀ own v : Bucket,
      own.merge (change v) = change (own.merge v)) (ha : Ascending a.buckets)
    (hb : Ascending b.buckets) (slot : Slot) :
    a.merge { b with buckets := Buckets.update slot change b.buckets } =
      { a.merge b with buckets := Buckets.update slot change (a.merge b).buckets } := by
  have merged := Assoc.mergeWith_update Bucket.merge_empty next ha hb slot
  exact congrArg (fun buckets => { a.merge b with buckets := buckets }) merged

/-- An operation may be performed on the right aggregator or on the merged one. -/
theorem merge_apply (length : b.keyLength = a.keyLength) (ha : Ascending a.buckets)
    (hb : Ascending b.buckets) (op : Operation) :
    a.merge (op.apply b) = op.apply (a.merge b) := by
  cases op with
  | add r =>
      have same : (a.merge b).accepts r = b.accepts r := by
        rw [accepts, accepts, length]
        rfl
      simp only [Operation.apply, add, same]
      split
      · exact merge_update (fun own v => own.merge_record v r.value) ha hb _
      · have counted : a.refused + (b.refused + 1) = (a.merge b).refused + 1 :=
          (UInt64.add_assoc ..).symm
        exact congrArg (fun refused => { a.merge b with refused }) counted
  | declare key metric =>
      simp only [Operation.apply, declare]
      by_cases full : key.length = b.keyLength
      · have full' : key.length = (a.merge b).keyLength := full.trans length
        rw [if_pos full, if_pos full']
        exact merge_update (fun _ _ => rfl) ha hb _
      · have short : key.length ≠ (a.merge b).keyLength := fun h => full (h.trans length.symm)
        rw [if_neg full, if_neg short]

/-- The same for a sequence of operations. -/
theorem merge_foldl_apply {cs : List Contribution} (length : b.keyLength = a.keyLength)
    (ha : Ascending a.buckets) (hb : b.Holds cs) (ops : List Operation) :
    a.merge (ops.foldl Operation.apply b) = ops.foldl Operation.apply (a.merge b) := by
  induction ops generalizing b cs with
  | nil => rfl
  | cons op ops ih =>
      have length' : (op.apply b).keyLength = a.keyLength := (keyLength_apply b op).trans length
      rw [List.foldl_cons, List.foldl_cons, ih length' (hb.apply op),
        merge_apply length ha hb.ascending]

end Aggregator

namespace Analysis

open Files (InputFile)

/-! ### Schedules -/

namespace Schedule

/-- The files of a schedule in order. -/
def files : Schedule → List InputFile
  | .chunk files => files
  | .join p q => p.files ++ q.files

variable {σ : Type} {start : σ} {add : σ → InputFile → σ} {merge : σ → σ → σ}

/-- What becomes of the pieces of a schedule, where `start` is the work on no file. -/
def work (start : σ) (add : σ → InputFile → σ) (merge : σ → σ → σ) : Schedule → σ
  | .chunk files => files.foldl add start
  | .join p q => merge (p.work start add merge) (q.work start add merge)

/-- When a file may be added to the right part before or after parts are merged, so may a list of
files. -/
theorem merge_foldl_add (Inv : σ → Prop) (keep : ∀ p f, Inv p → Inv (add p f))
    (merge_add : ∀ p q f, Inv p → Inv q → merge p (add q f) = add (merge p q) f) {p q : σ}
    (hp : Inv p) (hq : Inv q) (files : List InputFile) :
    merge p (files.foldl add q) = files.foldl add (merge p q) := by
  induction files generalizing q with
  | nil => rfl
  | cons f files ih =>
      rw [List.foldl_cons, List.foldl_cons, ih (keep q f hq), merge_add p q f hp hq]

/-- Then every schedule ends with the work of one pass over its files. -/
theorem work_eq_foldl (Inv : σ → Prop) (begin_ : Inv start)
    (keep : ∀ p f, Inv p → Inv (add p f)) (merge_start : ∀ p, merge p start = p)
    (merge_add : ∀ p q f, Inv p → Inv q → merge p (add q f) = add (merge p q) f)
    (s : Schedule) : s.work start add merge = s.files.foldl add start := by
  have inv (files : List InputFile) : Inv (files.foldl add start) := by
    refine List.foldlRecOn files add begin_ ?_
    intro p hp f _
    exact keep p f hp
  induction s with
  | chunk files => rfl
  | join p q ihp ihq =>
      rw [work, ihp, ihq, merge_foldl_add Inv keep merge_add (inv p.files) begin_, merge_start,
        files, List.foldl_append]

end Schedule

/-! ### Gathering -/

section Gathering

variable {ρ : Type} {g : Gathering ρ}

/-- A file may be added to the right part of the work or to the merged work. -/
theorem Gathered.merge_add {p q : Gathered ρ} (hp : p.Consistent g) (hq : q.Consistent g)
    (f : InputFile) : p.merge (g.add q f) = g.add (p.merge q) f := by
  unfold Gathering.add
  cases g.row? f with
  | none => rfl
  | some row =>
      have length : q.aggregator.keyLength = p.aggregator.keyLength :=
        hq.keyLength.trans hp.keyLength.symm
      have collected : p.aggregator.merge (g.collect q.aggregator (g.entry row)) =
          g.collect (p.merge q).aggregator (g.entry row) := by
        rw [g.collect_eq_foldl_apply, g.collect_eq_foldl_apply]
        exact Aggregator.merge_foldl_apply length hp.holds.ascending hq.holds _
      have rows : p.rows ++ (q.rows ++ [row]) = (p.merge q).rows ++ [row] :=
        (List.append_assoc ..).symm
      exact congrArg₂ Gathered.mk rows collected

theorem Gathered.merge_start (p : Gathered ρ) : p.merge g.start = p :=
  congrArg₂ Gathered.mk (List.append_nil p.rows) (p.aggregator.merge_new g.keyLength)

theorem Gathering.run_eq_work (s : Schedule) : g.run s = s.work g.start g.add Gathered.merge := by
  induction s with
  | chunk files => rfl
  | join p q ihp ihq => rw [run, Schedule.work, ihp, ihq]

/-- The work of every schedule is that of one pass over its files. -/
theorem Gathering.run_eq_ofFiles (sound : g.Sound) (s : Schedule) :
    g.run s = g.ofFiles s.files := by
  rw [run_eq_work]
  exact Schedule.work_eq_foldl (Gathered.Consistent g) (.start g)
    (fun p f hp => hp.add sound f) Gathered.merge_start
    (fun p q f hp hq => Gathered.merge_add hp hq f) s

end Gathering

end Analysis

/-! ### Syntax -/

instance : IsStrictTotalOrder GroupKey (· < ·) :=
  RelEmbedding.isStrictTotalOrder (s := ((· < ·) : List String → List String → Prop))
    ⟨⟨GroupKey.labels, fun _ _ => congrArg GroupKey.mk⟩, Iff.rfl⟩

namespace Analysis

open Files (InputFile)

theorem GroupSyntax.merge_empty (g : GroupSyntax) : g.merge .empty = g := rfl

theorem GroupSyntax.merge_record (g other : GroupSyntax) (syntaxOk : Bool) :
    g.merge (other.record syntaxOk) = (g.merge other).record syntaxOk := by
  unfold merge record
  split
  · rfl
  · rfl

namespace SyntaxGroups

theorem groups_merge (s t : SyntaxGroups) :
    (s.merge t).groups = Assoc.mergeWith .empty GroupSyntax.merge s.groups t.groups := rfl

theorem ascending_record {s : SyntaxGroups} (h : Ascending s.groups) (keyLength : Nat)
    (f : FileSyntax) : Ascending (s.record keyLength f).groups := by
  rw [record]
  split
  · exact Assoc.ascending_update _ _ h
  · exact h

/-- A file may be recorded in the right groups or in the merged ones. -/
theorem merge_record {s t : SyntaxGroups} (hs : Ascending s.groups) (ht : Ascending t.groups)
    (keyLength : Nat) (f : FileSyntax) :
    s.merge (t.record keyLength f) = (s.merge t).record keyLength f := by
  have next (own g : GroupSyntax) := own.merge_record g f.syntaxOk
  unfold record
  split
  · have merged := Assoc.mergeWith_update GroupSyntax.merge_empty next hs ht f.key
    exact congrArg (SyntaxGroups.mk · (s.skipped + t.skipped)) merged
  · rfl

end SyntaxGroups

namespace SyntaxPartial

/-- The work on files in the pieces of a schedule, whose trees come from a provider. -/
def run (p : Provider) (keyLength : Nat) (s : Schedule) : SyntaxPartial :=
  s.work empty (add p keyLength) merge

variable {q r : SyntaxPartial}

theorem ascending_add (h : Ascending q.groups.groups) (p : Provider) (keyLength : Nat)
    (f : InputFile) : Ascending (q.add p keyLength f).groups.groups := by
  rw [add]
  split
  · exact h
  · exact SyntaxGroups.ascending_record h keyLength _

/-- A file may be added to the right part of the work or to the merged work. -/
theorem merge_add (hq : Ascending q.groups.groups) (hr : Ascending r.groups.groups) (p : Provider)
    (keyLength : Nat) (f : InputFile) :
    q.merge (r.add p keyLength f) = (q.merge r).add p keyLength f := by
  unfold add
  cases FileSyntax.ofFile? p keyLength f with
  | none => rfl
  | some checked =>
      have files : q.files ++ (r.files ++ [checked]) = (q.merge r).files ++ [checked] :=
        (List.append_assoc ..).symm
      exact congrArg₂ SyntaxPartial.mk files (SyntaxGroups.merge_record hq hr keyLength checked)

theorem merge_empty (q : SyntaxPartial) : q.merge empty = q :=
  congrArg (SyntaxPartial.mk · q.groups) (List.append_nil q.files)

/-- The work of every schedule is that of one pass over its files. -/
theorem run_eq_ofFiles (p : Provider) (keyLength : Nat) (s : Schedule) :
    run p keyLength s = ofFiles p keyLength s.files := by
  have none : Ascending empty.groups.groups := List.Pairwise.nil
  exact Schedule.work_eq_foldl (fun work => Ascending work.groups.groups) none
    (fun _ f hq => ascending_add hq p keyLength f) merge_empty
    (fun _ _ f hq hr => merge_add hq hr p keyLength f) s

end SyntaxPartial

/-! ### Analyses -/

/-- Scoring, importing and checking give the result of one pass over the files one after another,
however the files are cut into pieces and however the work on the pieces, some of them empty, is
merged: the same rows in the same order, the same summary and the same number of skipped records.
This holds for every provider of trees, whatever sources it refuses. -/
theorem analyses_of_schedule (s : Schedule) :
    (∀ (p : Provider) (request : ScoreRequest) (conditions : Conditions),
      ScoreAnalysis.ofGathered request conditions ((request.gathering p conditions).run s) =
        ScoreAnalysis.ofFiles request conditions s.files p) ∧
    (∀ labels : List String,
      ImportAnalysis.ofGathered labels ((importGathering labels.length).run s) =
        ImportAnalysis.ofFiles labels s.files) ∧
    (∀ (p : Provider) (labels : List String),
      SyntaxAnalysis.ofPartial labels (SyntaxPartial.run p labels.length s) =
        SyntaxAnalysis.ofFiles labels s.files p) := by
  refine ⟨fun p request conditions => ?_, fun labels => ?_, fun p labels => ?_⟩
  · rw [Gathering.run_eq_ofFiles (request.gathering_sound p conditions)]
    rfl
  · rw [Gathering.run_eq_ofFiles (importGathering_sound labels.length)]
    rfl
  · rw [SyntaxPartial.run_eq_ofFiles]
    rfl

end Analysis

end SuiteMetrics
