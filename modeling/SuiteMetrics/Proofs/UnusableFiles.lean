import SuiteMetrics.Proofs.RowsAgree
import SuiteMetrics.Proofs.SequentialPass

/-!
Files that cannot be used.

A file of which no row is made changes nothing in the work of an analysis (`foldl_filter_of_skip`),
so an analysis is the analysis of its other files, whatever pieces the files are cut into. Sources
are such files when they cannot be read or the provider refuses them, and reports when they cannot
be read or are no text. A report that is text but cannot be understood is not: it is listed without
values, and its group has a row for every metric (`AddsEmptyReport`). Both are put together in
`failures_stay_local`.
-/

namespace SuiteMetrics.Analysis

open Files (InputFile)

/-! ### What cannot be used -/

/-- A source cannot be used: it cannot be read, or the provider refuses its text. -/
inductive Provider.Fails (p : Provider) (f : InputFile) : Prop where
  | unreadable (fault : IoFault) : f.content = .error fault → Fails p f
  | refused (bytes : Text.Utf8.Bytes) (failure : Failure) : f.content = .ok bytes →
      p f.path (Text.Utf8.decodeLenient bytes) = .error failure → Fails p f

/-- A report cannot be used: it cannot be read, or its bytes are no text. -/
inductive ReportFails (f : InputFile) : Prop where
  | unreadable (fault : IoFault) : f.content = .error fault → ReportFails f
  | noText (bytes : Text.Utf8.Bytes) : f.content = .ok bytes → Text.Utf8.decode? bytes = none →
      ReportFails f

/-- A report is text that cannot be understood. -/
def IsMalformed (f : InputFile) : Prop :=
  ∃ bytes text, f.content = .ok bytes ∧ Text.Utf8.decode? bytes = some text ∧
    Violations.violationsOfText? text.toList = none

theorem Provider.Fails.treeOf?_eq_none {p : Provider} {f : InputFile} (h : p.Fails f) :
    p.treeOf? f = none := by
  rw [treeOf?]
  cases h with
  | unreadable fault unread =>
      rw [unread]
      rfl
  | refused bytes failure read refused =>
      rw [read]
      exact congrArg Except.toOption refused

theorem ReportFails.reportText?_eq_none {f : InputFile} (h : ReportFails f) :
    reportText? f = none := by
  rw [reportText?]
  cases h with
  | unreadable fault unread => rw [unread]
  | noText bytes read noText => simp only [read, noText]

/-! ### Work that is skipped -/

/-- Files that change nothing may be left out of a pass. -/
theorem foldl_filter_of_skip {σ : Type} {add : σ → InputFile → σ} {removed : InputFile → Bool}
    {files : List InputFile} (skip : ∀ f ∈ files, removed f → ∀ work, add work f = work)
    (start : σ) : (files.filter fun f => !removed f).foldl add start = files.foldl add start := by
  rw [List.foldl_filter]
  refine List.foldl_ext _ _ _ ?_
  intro work f mem
  cases gone : removed f with
  | true => exact (skip f mem gone work).symm
  | false => rfl

section LeftOut

variable {removed : InputFile → Bool} {whole rest : Schedule}
  (files : rest.files = whole.files.filter fun f => !removed f)

include files

/-- Files without a row may be left out of the work on rows. -/
theorem Gathering.run_eq_run {ρ : Type} {g : Gathering ρ} (sound : g.Sound)
    (unused : ∀ f ∈ whole.files, removed f → g.row? f = none) : g.run whole = g.run rest := by
  rw [g.run_eq_ofFiles sound, g.run_eq_ofFiles sound, files]
  refine (foldl_filter_of_skip ?_ g.start).symm
  intro f mem gone work
  rw [add, unused f mem gone]

/-- Sources that fail may be left out of the work on syntax. -/
theorem SyntaxPartial.run_eq_run {p : Provider}
    (fails : ∀ f ∈ whole.files, removed f → p.Fails f) (keyLength : Nat) :
    run p keyLength whole = run p keyLength rest := by
  rw [run_eq_ofFiles, run_eq_ofFiles, files]
  refine (foldl_filter_of_skip ?_ empty).symm
  intro f mem gone work
  rw [add, FileSyntax.ofFile?, (fails f mem gone).treeOf?_eq_none]
  rfl

end LeftOut

/-! ### Reports without values -/

section Valueless

variable {keyLength skipped skipped' : Nat} {metrics : List Metric} {e : Entry}
  {entries : List Entry} {rows rows' : List SummaryRow}

theorem valuesAt_valueless (valueless : e.values = []) (slot : Slot) :
    valuesAt slot (e :: entries) = valuesAt slot entries := by
  unfold valuesAt
  rw [List.filter_cons]
  split
  · rw [List.filterMap_cons_none (by rw [valueless]; rfl)]
  · rfl

/-- A row about the same group and metric is the same row. -/
theorem RowsAgree.eq_of_valueless (h : RowsAgree keyLength metrics entries rows skipped)
    (h' : RowsAgree keyLength metrics (e :: entries) rows' skipped') (valueless : e.values = [])
    {q r : SummaryRow} (mem : q ∈ rows) (mem' : r ∈ rows') (key : q.key = r.key)
    (metric : q.metric = r.metric) : q = r := by
  obtain ⟨_, _, _⟩ := q
  obtain ⟨_, _, _⟩ := r
  obtain rfl := key
  obtain rfl := metric
  have stats := h.summary _ mem
  rw [← valuesAt_valueless valueless, ← h'.summary _ mem'] at stats
  exact congrArg (SummaryRow.mk _ _) stats

/-- The row of a group that no other entry has is without statistics. -/
theorem RowsAgree.summary_eq_none_of_valueless
    (h' : RowsAgree keyLength metrics (e :: entries) rows' skipped') (valueless : e.values = [])
    {r : SummaryRow} (mem : r ∈ rows') (fresh : ∀ d ∈ entries, d.key ≠ r.key) :
    r.summary = none := by
  refine (h'.absent r mem).mpr ?_
  intro d dmem key
  rcases List.mem_cons.mp dmem with rfl | later
  · rw [valueless]
    rfl
  · exact absurd key (fresh d later)

/-- An entry without values changes no statistics and adds at most rows without any. -/
theorem RowsAgree.mem_rows_valueless (h : RowsAgree keyLength metrics entries rows skipped)
    (h' : RowsAgree keyLength metrics (e :: entries) rows' skipped') (valueless : e.values = [])
    (r : SummaryRow) :
    r ∈ rows' ↔ r ∈ rows ∨
      (r.summary = none ∧ r.key = e.key ∧ e.key.length = keyLength ∧ r.metric ∈ metrics ∧
        ∀ q ∈ rows, q.key = e.key → q.metric ≠ r.metric) := by
  constructor
  · intro mem
    obtain ⟨asked, full, d, dmem, key⟩ := (h'.slots r.key r.metric).mp ⟨r, mem, rfl, rfl⟩
    by_cases known : ∃ q ∈ rows, q.key = r.key ∧ q.metric = r.metric
    · obtain ⟨q, held, key, metric⟩ := known
      exact .inl (h.eq_of_valueless h' valueless held mem key metric ▸ held)
    · have fresh : ∀ d ∈ entries, d.key ≠ r.key := by
        intro d later key
        exact known ((h.slots r.key r.metric).mpr ⟨asked, full, d, later, key⟩)
      rcases List.mem_cons.mp dmem with rfl | later
      · refine .inr ⟨h'.summary_eq_none_of_valueless valueless mem fresh, key.symm, key ▸ full,
          asked, ?_⟩
        intro q held key' metric
        exact known ⟨q, held, key'.trans key, metric⟩
      · exact absurd key (fresh d later)
  · rintro (held | ⟨none_, key, full, asked, fresh⟩)
    · obtain ⟨asked, full, d, mem, key⟩ := (h.slots r.key r.metric).mp ⟨r, held, rfl, rfl⟩
      obtain ⟨r', mem', key', metric'⟩ := (h'.slots r.key r.metric).mpr
        ⟨asked, full, d, List.mem_cons_of_mem e mem, key⟩
      exact h.eq_of_valueless h' valueless held mem' key'.symm metric'.symm ▸ mem'
    · obtain ⟨r', mem', key', metric'⟩ := (h'.slots e.key r.metric).mpr
        ⟨asked, full, e, List.mem_cons_self, rfl⟩
      have none' : r'.summary = none := by
        refine h'.summary_eq_none_of_valueless valueless mem' ?_
        intro d mem same
        obtain ⟨q, held, qkey, qmetric⟩ := (h.slots e.key r.metric).mpr
          ⟨asked, full, d, mem, same.trans key'⟩
        exact fresh q held qkey qmetric
      obtain ⟨_, _, _⟩ := r
      obtain ⟨_, _, _⟩ := r'
      simp only at none_ key none' key' metric'
      rw [none_, key, ← none', ← key', ← metric']
      exact mem'

/-- An entry without values has none that could be refused. -/
theorem RowsAgree.skipped_valueless (h : RowsAgree keyLength metrics entries rows skipped)
    (h' : RowsAgree keyLength metrics (e :: entries) rows' skipped') (valueless : e.values = []) :
    skipped' = skipped := by
  rw [h.skipped, h'.skipped, shortValues_cons, valueless, List.length_nil, ite_self, Nat.zero_add]

end Valueless

/-- The rows of a pass are those of its files in order. -/
theorem Gathering.rows_ofFiles {ρ : Type} (g : Gathering ρ) (files : List InputFile) :
    (g.ofFiles files).rows = files.filterMap g.row? := by
  suffices from_ : ∀ p : Gathered ρ,
      (files.foldl g.add p).rows = p.rows ++ files.filterMap g.row? by
    exact from_ g.start
  induction files with
  | nil => exact fun p => (List.append_nil p.rows).symm
  | cons f files ih =>
      intro p
      rw [List.foldl_cons, ih, List.filterMap_cons, add]
      cases g.row? f with
      | none => rfl
      | some row => exact List.append_assoc p.rows [row] _

/-- A malformed report has a row without values. -/
theorem IsMalformed.ofFile? {f : InputFile} (h : IsMalformed f) (keyLength : Nat) :
    ImportedReport.ofFile? keyLength f = some ⟨⟨f.key keyLength, []⟩, f.relative⟩ := by
  obtain ⟨bytes, text, read, decoded, unknown⟩ := h
  have report : Violations.Report.ofText text = .empty := by
    rw [Violations.Report.ofText, unknown]
  have values : reportValues text = [] := by
    rw [reportValues, report]
    rfl
  rw [ImportedReport.ofFile?, reportText?]
  simp only [read, decoded, Option.map_some, values]

/-- An import lists one report more than another, without values, and a row for every metric of its
group if it has one; nothing else is different. -/
structure ImportAnalysis.AddsEmptyReport (a b : ImportAnalysis) (key : GroupKey)
    (report : String) : Prop where
  /-- The report has a row without values, and the other rows are the same. -/
  reports : a.reports.Perm (⟨⟨key, []⟩, report⟩ :: b.reports)
  /-- A group of a full key has a row for every metric. -/
  declared : key.length = a.labels.length → ∀ metric ∈ importedMetrics,
    ∃ r ∈ a.summary, r.key = key ∧ r.metric = metric
  /-- All other statistics are there unchanged, and a row of the group that was not there has
  none. -/
  summary : ∀ r, r ∈ a.summary ↔ r ∈ b.summary ∨
    (r.summary = none ∧ r.key = key ∧ key.length = a.labels.length ∧ r.metric ∈ importedMetrics ∧
      ∀ q ∈ b.summary, q.key = key → q.metric ≠ r.metric)
  skipped : a.skippedRecords = b.skippedRecords

theorem ImportAnalysis.addsEmptyReport (labels : List String) {f : InputFile}
    (malformed : IsMalformed f) {whole rest : Schedule}
    (files : whole.files.Perm (f :: rest.files)) :
    let g := importGathering labels.length
    AddsEmptyReport (ofGathered labels (g.run whole)) (ofGathered labels (g.run rest))
      (f.key labels.length) f.relative := by
  intro g
  let row : ImportedReport := ⟨⟨f.key labels.length, []⟩, f.relative⟩
  have sound : g.Sound := importGathering_sound labels.length
  have used : g.row? f = some row := malformed.ofFile? labels.length
  have rows : (row :: (g.run rest).rows).Perm (g.run whole).rows := by
    rw [g.run_eq_ofFiles sound, g.run_eq_ofFiles sound, g.rows_ofFiles, g.rows_ofFiles]
    have listed := (files.filterMap g.row?).symm
    rwa [List.filterMap_cons_some used] at listed
  have before := (Gathered.Consistent.run sound rest).rowsAgree (List.Perm.refl _)
  have after := (Gathered.Consistent.run sound whole).rowsAgree rows
  rw [List.map_cons] at after
  refine ⟨?_, ?_, before.mem_rows_valueless after rfl, before.skipped_valueless after rfl⟩
  · have sorted : (ofGathered labels (g.run whole)).reports.Perm _ := List.mergeSort_perm _ _
    have sorted' : (ofGathered labels (g.run rest)).reports.Perm _ := List.mergeSort_perm _ _
    exact (sorted.trans rows.symm).trans (sorted'.symm.cons row)
  · intro full metric asked
    exact (after.slots _ metric).mpr ⟨asked, full, _, List.mem_cons_self, rfl⟩

/-! ### All analyses -/

/-- Files that cannot be used leave no trace. When files are left out of a score analysis or a
syntax analysis that cannot be read or that the provider refuses, or out of an import that cannot be
read or are no text, the result is the same in all its parts, whatever pieces the files are cut into
before and after. A report that is text but cannot be understood is no such file: it is listed
without values, its group has a row for every metric, and nothing else is different. -/
theorem failures_stay_local :
    (∀ (removed : InputFile → Bool) (whole rest : Schedule),
      (rest.files = whole.files.filter fun f => !removed f) →
      (∀ (p : Provider) (request : ScoreRequest) (conditions : Conditions),
        (∀ f ∈ whole.files, removed f → p.Fails f) →
        let g := request.gathering p conditions
        ScoreAnalysis.ofGathered request conditions (g.run whole) =
          ScoreAnalysis.ofGathered request conditions (g.run rest)) ∧
      (∀ (p : Provider) (labels : List String),
        (∀ f ∈ whole.files, removed f → p.Fails f) →
        SyntaxAnalysis.ofPartial labels (SyntaxPartial.run p labels.length whole) =
          SyntaxAnalysis.ofPartial labels (SyntaxPartial.run p labels.length rest)) ∧
      ∀ labels : List String, (∀ f ∈ whole.files, removed f → ReportFails f) →
        let g := importGathering labels.length
        ImportAnalysis.ofGathered labels (g.run whole) =
          ImportAnalysis.ofGathered labels (g.run rest)) ∧
    ∀ (labels : List String) (f : InputFile) (whole rest : Schedule), IsMalformed f →
      whole.files.Perm (f :: rest.files) →
      let g := importGathering labels.length
      ImportAnalysis.AddsEmptyReport (.ofGathered labels (g.run whole))
        (.ofGathered labels (g.run rest)) (f.key labels.length) f.relative := by
  refine ⟨fun removed whole rest files => ⟨?_, ?_, ?_⟩, ?_⟩
  · intro p request conditions fails g
    have unused : ∀ f ∈ whole.files, removed f → g.row? f = none := by
      intro f mem gone
      exact congrArg (Option.map _) (fails f mem gone).treeOf?_eq_none
    rw [Gathering.run_eq_run files (request.gathering_sound p conditions) unused]
  · intro p labels fails
    rw [SyntaxPartial.run_eq_run files fails]
  · intro labels fails g
    have unused : ∀ f ∈ whole.files, removed f → g.row? f = none := by
      intro f mem gone
      exact congrArg (Option.map _) (fails f mem gone).reportText?_eq_none
    rw [Gathering.run_eq_run files (importGathering_sound labels.length) unused]
  · intro labels f whole rest malformed files
    exact ImportAnalysis.addsEmptyReport labels malformed files

/-! ### A file of every kind -/

/-- A file in a directory `d`. -/
def fileInD (name : String) (content : Except IoFault Text.Utf8.Bytes) : InputFile :=
  ⟨"/d/" ++ name, ["d", name], content⟩

def missing : InputFile := fileInD "Missing" (.error .notFound)

/-- The byte cannot begin a character. -/
def binary : InputFile := fileInD "Binary" (.ok [0xFF])

/-- The element in the text `<x>` is not closed. -/
def broken : InputFile := fileInD "Broken" (.ok [0x3C, 0x78, 0x3E])

/-- The text `<x/>` is a report without violations. -/
def quiet : InputFile := fileInD "Quiet" (.ok [0x3C, 0x78, 0x2F, 0x3E])

/-- The parser of Java, which here refuses a file. -/
def fastidious : Provider := fun path source =>
  if path = broken.path then .error (.provider "refused") else Provider.java path source

theorem isMalformed_broken : IsMalformed broken :=
  ⟨_, "<x>", rfl, by decide +kernel, by decide +kernel⟩

/-- Whether a file has one of some names. -/
def isCalled (names : List String) (f : InputFile) : Bool :=
  names.any fun name => f.below.getLast? = name

/-- A file that is missing and one that is refused are left out of a score analysis, a file that is
missing and one that is no text out of an import, and the report that is not understood keeps its
row and its group. -/
theorem failures_stay_local_everyKind :
    let request : ScoreRequest := ⟨[.cognitive], false⟩
    let conditions : Conditions := ⟨.default, "/", fun _ => .error ""⟩
    let scoring := request.gathering fastidious conditions
    let importing := importGathering 1
    ScoreAnalysis.ofGathered request conditions
        (scoring.run (.join (.chunk [missing, quiet]) (.chunk [broken]))) =
      ScoreAnalysis.ofGathered request conditions (scoring.run (.chunk [quiet])) ∧
    ImportAnalysis.ofGathered ["d"]
        (importing.run (.join (.chunk [missing, binary]) (.chunk [broken, quiet]))) =
      ImportAnalysis.ofGathered ["d"] (importing.run (.chunk [broken, quiet])) ∧
    ImportAnalysis.AddsEmptyReport
      (.ofGathered ["d"] (importing.run (.chunk [broken, quiet])))
      (.ofGathered ["d"] (importing.run (.chunk [quiet]))) (broken.key 1) broken.relative := by
  intro request conditions scoring importing
  refine ⟨?_, ?_, ?_⟩
  · refine (failures_stay_local.1 (isCalled ["Missing", "Broken"]) _ _ rfl).1 fastidious request
      conditions ?_
    change ∀ f ∈ [missing, quiet, broken], _
    simp only [List.forall_mem_cons]
    refine ⟨fun _ => .unreadable .notFound rfl, fun gone => absurd gone (by decide), ?_⟩
    exact ⟨fun _ => .refused _ (.provider "refused") rfl (if_pos rfl), List.forall_mem_nil _⟩
  · refine (failures_stay_local.1 (isCalled ["Missing", "Binary"]) _ _ rfl).2.2 ["d"] ?_
    change ∀ f ∈ [missing, binary, broken, quiet], _
    simp only [List.forall_mem_cons]
    refine ⟨fun _ => .unreadable .notFound rfl, fun _ => .noText _ rfl (by decide +kernel), ?_⟩
    exact ⟨fun gone => absurd gone (by decide), fun gone => absurd gone (by decide),
      List.forall_mem_nil _⟩
  · exact failures_stay_local.2 ["d"] broken _ _ isMalformed_broken (List.Perm.refl _)

end SuiteMetrics.Analysis
