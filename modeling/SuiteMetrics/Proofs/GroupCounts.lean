import Mathlib.Data.Rat.Cast.Order
import Mathlib.Tactic.Positivity
import SuiteMetrics.Proofs.SequentialPass

/-!
The groups of a syntax analysis count its files.

Files are recorded in groups by their keys, and a file without a full key is counted apart. The
counts of a group are those of the files with its key (`countsOf`), which one more file and a merge
change as they change the group (`countsOf_append`, `countsOf_singleton`). So whatever is recorded
and merged, and in whatever order, the groups hold the counts of the files
(`SyntaxPartial.Counted`), every file is counted once, and no more files of a group parse than it
has (`groups_count_files`).
-/

namespace SuiteMetrics

/-! ### Sums over ascending lists -/

namespace Assoc

variable {κ β : Type} [DecidableEq κ] [LT κ] [DecidableLT κ] {weight : β → Nat}

/-- A sum over the values grows by what a change adds to one of them. -/
theorem sum_update {change : Option β → β} {more : Nat}
    (grows : ∀ v, weight (change v) = (v.elim 0 weight) + more) (key : κ)
    (entries : List (κ × β)) :
    ((update key change entries).map fun e => weight e.2).sum =
      (entries.map fun e => weight e.2).sum + more := by
  induction entries with
  | nil => simp [update, grows]
  | cons e r ih =>
      obtain ⟨k, v⟩ := e
      rw [update]
      split
      case isTrue =>
          simp only [List.map_cons, List.sum_cons, grows, Option.elim_some]
          omega
      case isFalse =>
          split
          · simp only [List.map_cons, List.sum_cons, grows, Option.elim_none]
            omega
          · simp only [List.map_cons, List.sum_cons, ih]
            omega

/-- A sum over merged values is the sum over both lists. -/
theorem sum_mergeWith (zero : β) (join : β → β → β) (empty : weight zero = 0)
    (joined : ∀ v w, weight (join v w) = weight v + weight w) (entries more : List (κ × β)) :
    ((mergeWith zero join entries more).map fun e => weight e.2).sum =
      (entries.map fun e => weight e.2).sum + (more.map fun e => weight e.2).sum := by
  rw [mergeWith]
  induction more generalizing entries with
  | nil => rfl
  | cons e r ih =>
      have grows (v : Option β) :
          weight (join (v.getD zero) e.2) = (v.elim 0 weight) + weight e.2 := by
        rw [joined]
        cases v with
        | none => exact congrArg (· + weight e.2) empty
        | some v => rfl
      rw [List.foldl_cons, ih, sum_update grows, List.map_cons, List.sum_cons, Nat.add_assoc]

variable [IsStrictTotalOrder κ (· < ·)]

/-- Where absent values count as `zero`, merging joins what is read from both lists. -/
theorem getD_get?_mergeWith {zero : β} {join : β → β → β} (empty : ∀ own, join own zero = own)
    {entries more : List (κ × β)} (h : Ascending entries) (hm : Ascending more) (key : κ) :
    (get? key (mergeWith zero join entries more)).getD zero =
      join ((get? key entries).getD zero) ((get? key more).getD zero) := by
  rw [get?_mergeWith h hm]
  cases get? key more with
  | none => exact (empty _).symm
  | some v => rfl

end Assoc

namespace Analysis

open Assoc (Ascending)
open Files (InputFile)

/-! ### Counting files -/

/-- How many of some files have a key, and how many of these parse. -/
def countsOf (key : GroupKey) (files : List FileSyntax) : GroupSyntax where
  total := files.countP fun f => f.key = key
  correct := files.countP fun f => f.key = key ∧ f.syntaxOk

theorem countsOf_append (key : GroupKey) (xs ys : List FileSyntax) :
    countsOf key (xs ++ ys) = (countsOf key xs).merge (countsOf key ys) := by
  simp only [countsOf, GroupSyntax.merge, List.countP_append]

theorem countsOf_singleton (key : GroupKey) (f : FileSyntax) :
    countsOf key [f] = if f.key = key then GroupSyntax.empty.record f.syntaxOk else .empty := by
  by_cases same : f.key = key
  · cases ok : f.syntaxOk with
    | true => simp [countsOf, GroupSyntax.record, GroupSyntax.empty, same, ok]
    | false => simp [countsOf, GroupSyntax.record, GroupSyntax.empty, same, ok]
  · simp [countsOf, GroupSyntax.empty, same]

theorem eq_countsOf_iff {key : GroupKey} {files : List FileSyntax} {g : GroupSyntax} :
    g = countsOf key files ↔ g.total = (files.countP fun f => f.key = key) ∧
      g.correct = files.countP fun f => f.key = key ∧ f.syntaxOk := by
  obtain ⟨total, correct⟩ := g
  exact GroupSyntax.mk.injEq .. ▸ Iff.rfl

theorem correct_countsOf_le (key : GroupKey) (files : List FileSyntax) :
    (countsOf key files).correct ≤ (countsOf key files).total := by
  refine List.countP_mono_left ?_
  intro f _ both
  exact decide_eq_true (of_decide_eq_true both).1

/-- The groups hold the counts of the files that have been gathered. -/
structure SyntaxPartial.Counted (keyLength : Nat) (p : SyntaxPartial) : Prop where
  ascending : Ascending p.groups.groups
  /-- What is filed under a full key, if anything, are the counts of the files with this key. -/
  counts : ∀ key : GroupKey, key.length = keyLength →
    (Assoc.get? key p.groups.groups).getD .empty = countsOf key p.files
  /-- A group has a full key and a file. -/
  listed : ∀ key g, Assoc.get? key p.groups.groups = some g → key.length = keyLength ∧ 0 < g.total
  /-- Files without a full key are counted apart. -/
  skipped : p.groups.skipped = p.files.countP fun f => f.key.length ≠ keyLength
  /-- Every file is counted once. -/
  conserved : (p.groups.groups.map fun e => e.2.total).sum + p.groups.skipped = p.files.length

namespace SyntaxPartial.Counted

variable {keyLength : Nat} {p q : SyntaxPartial}

theorem empty (keyLength : Nat) : Counted keyLength .empty where
  ascending := List.Pairwise.nil
  counts _ _ := rfl
  listed _ _ held := by cases held
  skipped := rfl
  conserved := rfl

/-- A file with a full key is counted in its group. -/
theorem record_full (h : p.Counted keyLength) {f : FileSyntax} (full : f.key.length = keyLength) :
    Counted keyLength ⟨p.files ++ [f], p.groups.record keyLength f⟩ := by
  rw [SyntaxGroups.record, if_pos full]
  refine ⟨Assoc.ascending_update _ _ h.ascending, ?_, ?_, ?_, ?_⟩
  · intro key length
    rw [Assoc.get?_update _ _ h.ascending, countsOf_append, countsOf_singleton]
    by_cases same : key = f.key
    · subst same
      rw [if_pos rfl, if_pos rfl, Option.getD_some, h.counts _ length, GroupSyntax.merge_record,
        GroupSyntax.merge_empty]
    · rw [if_neg same, if_neg fun eq => same eq.symm, h.counts _ length, GroupSyntax.merge_empty]
  · intro key g held
    rw [Assoc.get?_update _ _ h.ascending] at held
    split at held
    case isTrue same =>
        cases held
        exact ⟨same ▸ full, Nat.succ_pos _⟩
    case isFalse => exact h.listed key g held
  · rw [List.countP_append, ← h.skipped, List.countP_singleton, if_neg (by simpa using full)]
    rfl
  · have grows (g : Option GroupSyntax) :
        ((g.getD .empty).record f.syntaxOk).total = (g.elim 0 GroupSyntax.total) + 1 := by
      cases g with
      | none => rfl
      | some g => rfl
    rw [Assoc.sum_update grows, Nat.add_right_comm, h.conserved, List.length_append]
    rfl

/-- A file without a full key is counted apart. -/
theorem record_short (h : p.Counted keyLength) {f : FileSyntax}
    (short : f.key.length ≠ keyLength) :
    Counted keyLength ⟨p.files ++ [f], p.groups.record keyLength f⟩ := by
  rw [SyntaxGroups.record, if_neg short]
  refine ⟨h.ascending, ?_, h.listed, ?_, ?_⟩
  · intro key length
    have other : f.key ≠ key := fun same => short (same ▸ length)
    rw [h.counts key length, countsOf_append, countsOf_singleton, if_neg other,
      GroupSyntax.merge_empty]
  · rw [List.countP_append, ← h.skipped, List.countP_singleton, if_pos (by simpa using short)]
  · rw [← Nat.add_assoc, h.conserved, List.length_append]
    rfl

/-- One more file is counted where it belongs. -/
theorem add (h : p.Counted keyLength) (provider : Provider) (f : InputFile) :
    (p.add provider keyLength f).Counted keyLength := by
  rw [SyntaxPartial.add]
  split
  case h_1 => exact h
  case h_2 checked _ =>
      by_cases full : checked.key.length = keyLength
      · exact h.record_full full
      · exact h.record_short full

/-- Merged groups count the files of both parts. -/
theorem merge (hp : p.Counted keyLength) (hq : q.Counted keyLength) :
    (p.merge q).Counted keyLength := by
  refine ⟨Assoc.ascending_mergeWith hp.ascending _, ?_, ?_, ?_, ?_⟩
  · intro key length
    rw [SyntaxPartial.merge, SyntaxGroups.groups_merge,
      Assoc.getD_get?_mergeWith GroupSyntax.merge_empty hp.ascending hq.ascending,
      hp.counts key length, hq.counts key length, countsOf_append]
  · intro key g held
    rw [SyntaxPartial.merge, SyntaxGroups.groups_merge,
      Assoc.get?_mergeWith hp.ascending hq.ascending] at held
    cases other : Assoc.get? key q.groups.groups with
    | none =>
        rw [other] at held
        exact hp.listed key g held
    | some v =>
        rw [other] at held
        cases held
        obtain ⟨full, pos⟩ := hq.listed key v other
        exact ⟨full, Nat.add_pos_right _ pos⟩
  · rw [SyntaxPartial.merge, List.countP_append, ← hp.skipped, ← hq.skipped]
    rfl
  · have sums : ((p.merge q).groups.groups.map fun e => e.2.total).sum = _ + _ :=
      Assoc.sum_mergeWith GroupSyntax.empty GroupSyntax.merge rfl (fun _ _ => rfl) _ _
    rw [sums, SyntaxPartial.merge, List.length_append, ← hp.conserved, ← hq.conserved]
    exact Nat.add_add_add_comm ..

end SyntaxPartial.Counted

/-! ### Recording and merging -/

/-- A way to record files: one after another, with parts of the work merged in at any time. -/
inductive Recording where
  | nothing
  | file (before : Recording) (f : InputFile)
  | merged (p q : Recording)

/-- The work on the files of a recording, whose trees come from a provider. -/
def Recording.work (p : Provider) (keyLength : Nat) : Recording → SyntaxPartial
  | .nothing => .empty
  | .file before f => (before.work p keyLength).add p keyLength f
  | .merged q r => (q.work p keyLength).merge (r.work p keyLength)

theorem Recording.counted (p : Provider) (keyLength : Nat) (r : Recording) :
    (r.work p keyLength).Counted keyLength := by
  induction r with
  | nothing => exact .empty keyLength
  | file before f ih => exact ih.add p f
  | merged q r ihq ihr => exact ihq.merge ihr

theorem SyntaxPartial.counted_run (p : Provider) (keyLength : Nat) (s : Schedule) :
    (run p keyLength s).Counted keyLength := by
  induction s with
  | chunk files =>
      refine List.foldlRecOn (motive := Counted keyLength) files _ (.empty keyLength) ?_
      intro work counted f _
      exact counted.add p f
  | join q r ihq ihr => exact ihq.merge ihr

/-! ### Analyses -/

/-- The groups of an analysis count its files. -/
structure SyntaxAnalysis.CountsFiles (a : SyntaxAnalysis) : Prop where
  /-- Every file is counted once, in its group or as skipped. -/
  conserved : (a.summary.map fun e => e.2.total).sum + a.skippedRecords = a.files.length
  /-- The groups ascend by their keys, so none is listed twice. -/
  ascending : Ascending a.summary
  /-- The groups are those of the full keys of files, and have the counts of the files with exactly
  these keys. -/
  group : ∀ key g, (key, g) ∈ a.summary ↔
    key.length = a.labels.length ∧ (∃ f ∈ a.files, f.key = key) ∧
      g.total = (a.files.countP fun f => f.key = key) ∧
      g.correct = a.files.countP fun f => f.key = key ∧ f.syntaxOk
  /-- The skipped files are those without a full key. -/
  skipped : a.skippedRecords = a.files.countP fun f => f.key.length ≠ a.labels.length
  /-- A group has a file, and what does not parse is the rest of what does. -/
  bounds : ∀ e ∈ a.summary, 0 < e.2.total ∧ e.2.correct ≤ e.2.total ∧
    e.2.correct + e.2.incorrect = e.2.total
  /-- A group has a rate of success, which is of a hundred. -/
  rate : ∀ e ∈ a.summary,
    e.2.successRate? = some (Float.ofNat e.2.correct * 100.0 / Float.ofNat e.2.total) ∧
    (0 : ℚ) ≤ e.2.correct * 100 / e.2.total ∧ (e.2.correct * 100 / e.2.total : ℚ) ≤ 100

namespace SyntaxPartial.Counted

variable {labels : List String} {p : SyntaxPartial}

/-- What is filed under a full key are the counts of the files with this key, and there is such a
file. -/
theorem get?_groups_iff {keyLength : Nat} (h : p.Counted keyLength) {key : GroupKey}
    {g : GroupSyntax} :
    Assoc.get? key p.groups.groups = some g ↔
      key.length = keyLength ∧ (∃ f ∈ p.files, f.key = key) ∧ g = countsOf key p.files := by
  have present : 0 < (countsOf key p.files).total ↔ ∃ f ∈ p.files, f.key = key := by
    simp only [countsOf, List.countP_pos_iff, decide_eq_true_eq]
  rw [← present]
  constructor
  · intro held
    obtain ⟨full, pos⟩ := h.listed key g held
    have counts : g = countsOf key p.files := by
      rw [← h.counts key full, held]
      rfl
    exact ⟨full, counts ▸ pos, counts⟩
  · rintro ⟨full, pos, rfl⟩
    have counts := h.counts key full
    cases held : Assoc.get? key p.groups.groups with
    | none =>
        rw [held] at counts
        rw [← counts] at pos
        exact absurd pos (Nat.lt_irrefl 0)
    | some g =>
        rw [held] at counts
        exact congrArg some counts

theorem countsFiles (h : p.Counted labels.length) :
    (SyntaxAnalysis.ofPartial labels p).CountsFiles := by
  have perm : (SyntaxAnalysis.ofPartial labels p).files.Perm p.files := List.mergeSort_perm _ _
  have bounds : ∀ e ∈ p.groups.groups, 0 < e.2.total ∧ e.2.correct ≤ e.2.total := by
    rintro ⟨key, g⟩ mem
    have held := Assoc.mem_iff_get? h.ascending |>.mp mem
    obtain ⟨-, -, counts⟩ := h.get?_groups_iff.mp held
    exact ⟨(h.listed key g held).2, counts ▸ correct_countsOf_le key p.files⟩
  refine ⟨?_, h.ascending, ?_, ?_, ?_, ?_⟩
  · rw [perm.length_eq]
    exact h.conserved
  · intro key g
    simp only [perm.mem_iff, perm.countP_eq]
    refine (Assoc.mem_iff_get? h.ascending).trans (h.get?_groups_iff.trans ?_)
    refine and_congr_right fun _ => and_congr_right fun _ => ?_
    exact eq_countsOf_iff
  · rw [perm.countP_eq]
    exact h.skipped
  · intro e mem
    obtain ⟨pos, le⟩ := bounds e mem
    exact ⟨pos, le, Nat.add_sub_of_le le⟩
  · intro e mem
    obtain ⟨pos, le⟩ := bounds e mem
    refine ⟨if_neg pos.ne', by positivity, ?_⟩
    have total : (0 : ℚ) < e.2.total := Nat.cast_pos.mpr pos
    have correct : (e.2.correct : ℚ) ≤ e.2.total := Nat.cast_le.mpr le
    rw [div_le_iff₀ total, mul_comm]
    exact mul_le_mul_of_nonneg_left correct (by norm_num)

end SyntaxPartial.Counted

/-- The groups of every syntax analysis count its files, wherever its trees come from, however the
files are recorded and parts of the work merged, and in particular however the files of a pass are
cut into pieces: the totals of the groups and the number of skipped files make up the number of
files, a group is about the files with exactly its key, and those of them that parse are no more
than all of them, so that what does not parse is never below zero and the rate of success lies
between 0 and 100. -/
theorem groups_count_files (p : Provider) (labels : List String) :
    (∀ r : Recording, (SyntaxAnalysis.ofPartial labels (r.work p labels.length)).CountsFiles) ∧
    ∀ s : Schedule,
      (SyntaxAnalysis.ofPartial labels (SyntaxPartial.run p labels.length s)).CountsFiles :=
  ⟨fun r => (r.counted p labels.length).countsFiles,
    fun s => (SyntaxPartial.counted_run p labels.length s).countsFiles⟩

end Analysis

end SuiteMetrics
