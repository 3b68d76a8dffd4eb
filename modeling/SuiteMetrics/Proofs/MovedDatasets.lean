import SuiteMetrics.Analysis.Import
import SuiteMetrics.Analysis.Soundness
import SuiteMetrics.Proofs.ChosenFiles
import SuiteMetrics.Proofs.WordPattern

/-!
A dataset that lies elsewhere.

Two directories with the same contents give the same selection exactly when the exclude patterns
hit the whole paths of the same candidates, and then all analyses have the same results
(`selections_agree_iff`), whatever provider makes trees of their texts. The default pattern hits every file below a directory whose name contains
its word. So a dataset is lost as a whole when the word stands in the path of its root, and below
two roots the selections agree when it stands in both paths or in none
(`default_selections_agree_iff`).
-/

namespace SuiteMetrics

open Files (InputFile)

/-! ### Analyses of files that lie elsewhere -/

namespace Analysis

/-- What the instruments of a request measure of a file. -/
def ScoreRequest.measured (request : ScoreRequest) (c : Conditions) (path : String) :
    List (List Tool.Measurement) :=
  (request.instruments c.directory c.settings).map fun i => i.measure c.run path

/-- The instruments of a request add the same to the scores of a file when they measure the same. -/
theorem foldl_addInstrument_congr {request : ScoreRequest} {c c' : Conditions} {path path' : String}
    (measured : request.measured c path = request.measured c' path') (s : Scores) :
    (request.instruments c.directory c.settings).foldl (Scores.addInstrument c.run path) s =
      (request.instruments c'.directory c'.settings).foldl
        (Scores.addInstrument c'.run path') s := by
  have metrics : (request.instruments c.directory c.settings).map Tool.Instrument.metrics =
      (request.instruments c'.directory c'.settings).map Tool.Instrument.metrics := by
    simp only [ScoreRequest.instruments, List.map_append,
      apply_ite (List.map Tool.Instrument.metrics), List.map_cons, List.map_nil, Violations.checker,
      Readability.model]
  let pair (c : Conditions) (path : String) (i : Tool.Instrument) :=
    (i.metrics, i.measure c.run path)
  have pairs : (request.instruments c.directory c.settings).map (pair c path) =
      (request.instruments c'.directory c'.settings).map (pair c' path') := by
    rw [← List.zip_map', ← List.zip_map', metrics]
    exact congrArg _ measured
  -- An instrument adds what it measures to the metrics that are its own, and nothing else.
  let add (s : Scores) (m : List Metric × List Tool.Measurement) : Scores :=
    { s with
      values := (m.2.filter fun x => m.1.contains x.metric).foldl
        (fun values x => MetricValues.put values x.metric x.value) s.values }
  have whole := congrArg (List.foldl add s) pairs
  rw [List.foldl_map, List.foldl_map] at whole
  exact whole

section Rows

variable {f f' : InputFile}

theorem key_congr (below : f.below = f'.below) (length : Nat) : f.key length = f'.key length := by
  rw [InputFile.key, InputFile.key, below]

theorem relative_congr (below : f.below = f'.below) : f.relative = f'.relative := by
  rw [InputFile.relative, InputFile.relative, below]

/-- The tree of a source, or that there is none, depends on its text alone. -/
def Provider.ReadsTextOnly (p : Provider) : Prop :=
  ∀ path path' source, (p path source).toOption = (p path' source).toOption

theorem Provider.java_readsTextOnly : java.ReadsTextOnly := fun _ _ _ => rfl

theorem Provider.ReadsTextOnly.treeOf?_congr {p : Provider} (textual : p.ReadsTextOnly)
    (content : f.content = f'.content) : p.treeOf? f = p.treeOf? f' := by
  simp only [treeOf?, content, textual f.path f'.path]

theorem ImportedReport.ofFile?_congr (below : f.below = f'.below) (content : f.content = f'.content)
    (keyLength : Nat) :
    ImportedReport.ofFile? keyLength f = ImportedReport.ofFile? keyLength f' := by
  rw [ImportedReport.ofFile?, ImportedReport.ofFile?, reportText?, reportText?, content,
    key_congr below, relative_congr below]

theorem FileSyntax.ofFile?_congr {p : Provider} (textual : p.ReadsTextOnly)
    (below : f.below = f'.below) (content : f.content = f'.content) (keyLength : Nat) :
    FileSyntax.ofFile? p keyLength f = FileSyntax.ofFile? p keyLength f' := by
  rw [FileSyntax.ofFile?, FileSyntax.ofFile?, textual.treeOf?_congr content, key_congr below,
    relative_congr below]

/-- The scores of a file depend on its path only in what is measured. -/
theorem FileScores.ofFile?_congr {p : Provider} (textual : p.ReadsTextOnly)
    (below : f.below = f'.below) (content : f.content = f'.content)
    {request : ScoreRequest} {c c' : Conditions} (settings : c.settings = c'.settings)
    (measured : request.measured c f.path = request.measured c' f'.path) :
    FileScores.ofFile? p request c f = FileScores.ofFile? p request c' f' := by
  have scored := foldl_addInstrument_congr measured
  rw [FileScores.ofFile?, FileScores.ofFile?, textual.treeOf?_congr content]
  refine congrArg (Option.map · _) (funext fun t => ?_)
  simp only [FileScores.ofTree, scored]
  rw [key_congr below, relative_congr below, settings]

end Rows

theorem Gathering.ofFiles_map_congr {ρ α : Type} {g g' : Gathering ρ}
    (keyLength : g.keyLength = g'.keyLength) (metrics : g.metrics = g'.metrics)
    (entry : g.entry = g'.entry) {xs : List α} {f f' : α → InputFile}
    (rows : ∀ x ∈ xs, g.row? (f x) = g'.row? (f' x)) :
    g.ofFiles (xs.map f) = g'.ofFiles (xs.map f') := by
  obtain ⟨length, asked, row?, toEntry⟩ := g
  obtain ⟨length', asked', row?', toEntry'⟩ := g'
  obtain rfl : length = length' := keyLength
  obtain rfl : asked = asked' := metrics
  obtain rfl : toEntry = toEntry' := entry
  rw [Gathering.ofFiles, Gathering.ofFiles, List.foldl_map, List.foldl_map]
  refine List.foldl_ext _ _ _ fun work x mem => ?_
  have row : row? (f x) = row?' (f' x) := rows x mem
  simp only [Gathering.add, row]
  rfl

theorem SyntaxPartial.ofFiles_map_congr {p : Provider} {α : Type} {keyLength : Nat} {xs : List α}
    {f f' : α → InputFile}
    (rows : ∀ x ∈ xs,
      FileSyntax.ofFile? p keyLength (f x) = FileSyntax.ofFile? p keyLength (f' x)) :
    SyntaxPartial.ofFiles p keyLength (xs.map f) =
      SyntaxPartial.ofFiles p keyLength (xs.map f') := by
  rw [SyntaxPartial.ofFiles, SyntaxPartial.ofFiles, List.foldl_map, List.foldl_map]
  refine List.foldl_ext _ _ _ fun work x mem => ?_
  rw [SyntaxPartial.add, SyntaxPartial.add, rows x mem]

end Analysis

namespace Files

open Analysis (Conditions ImportAnalysis Provider ScoreAnalysis ScoreRequest SyntaxAnalysis)

variable {w w' : World} {path path' : String} {root root' : List String} {e : Entry}
  {entries entries' : List (String × Entry)}

/-! ### The default pattern -/

/-- The word of the default pattern. -/
def defaultWord : List Char := "scaffolding".toList

/-- The default pattern, read. -/
def defaultGlobs : List Glob := [⟨wordParts defaultWord, false⟩]

theorem readPatterns_default :
    Selection.readPatterns Settings.default.exclude = .ok defaultGlobs := rfl

theorem isHit_default_iff (path : String) :
    Selection.isHit defaultGlobs path ↔ Contains defaultWord path := by
  rw [Selection.isHit, defaultGlobs, List.any_cons, List.any_nil, Bool.or_false]
  exact accepts_wordPattern_iff defaultWord _

/-- The default pattern hits the whole path of a candidate when the word is in the path of the
root. -/
theorem isHit_default_of_mem_candidates (directory : e.isDirectory) (wellNamed : e.isWellNamed)
    {endings below : List String}
    (mem : below ∈ Selection.candidates w root e endings defaultGlobs) :
    Selection.isHit defaultGlobs (absoluteText (root ++ below)) =
      decide (Contains defaultWord (absoluteText root)) := by
  have apart : slash ∉ wordBytes defaultWord := by decide +kernel
  obtain ⟨found, fits⟩ := List.mem_filter.mp mem
  have nonempty := (Selection.names_of_mem_found directory wellNamed found).2
  have free : ¬Contains defaultWord (join below) := by
    rw [← isHit_default_iff]
    exact Bool.not_eq_true _ ▸ Bool.not_eq_true' _ ▸ (Bool.and_eq_true_iff.mp fits).2
  rw [Bool.eq_iff_iff, isHit_default_iff, contains_absoluteText_append apart root nonempty,
    decide_eq_true_iff]
  exact or_iff_left free

/-- Under the default pattern all candidates are lost when the word is in the path of the root, and
none otherwise. -/
theorem chosen_default (directory : e.isDirectory) (wellNamed : e.isWellNamed)
    (endings : List String) :
    Selection.chosen w root e endings defaultGlobs =
      if Contains defaultWord (absoluteText root) then []
      else Selection.candidates w root e endings defaultGlobs := by
  rw [Selection.chosen]
  split
  case isTrue contains =>
      refine List.filter_eq_nil_iff.mpr fun below mem => ?_
      rw [isHit_default_of_mem_candidates directory wellNamed mem, decide_eq_true contains]
      exact Bool.false_ne_true
  case isFalse other =>
      refine List.filter_eq_self.mpr fun below mem => ?_
      rw [isHit_default_of_mem_candidates directory wellNamed mem, decide_eq_false other]
      rfl

/-! ### Selections below two roots -/

/-- The results of all analyses are the same for the files at the same places below two directories
with the same contents, if trees are made of the texts of sources alone. Results of scoring by
programs are the same if the programs measure the same files the same. -/
theorem SameContents.analyses_eq (same : SameContents w w' path path' root root' entries entries')
    {places : List (List String)} (named : ∀ below ∈ places, ∀ n ∈ below, IsName n) :
    let files := places.map (Selection.fileAt w root)
    let files' := places.map (Selection.fileAt w' root')
    (∀ labels, ImportAnalysis.ofFiles labels files = ImportAnalysis.ofFiles labels files') ∧
      ∀ p : Provider, p.ReadsTextOnly →
        (∀ labels,
          SyntaxAnalysis.ofFiles labels files p = SyntaxAnalysis.ofFiles labels files' p) ∧
        ∀ (request : ScoreRequest) (c c' : Conditions), c.settings = c'.settings →
          (∀ below ∈ places, request.measured c (absoluteText (root ++ below)) =
            request.measured c' (absoluteText (root' ++ below))) →
          ScoreAnalysis.ofFiles request c files p = ScoreAnalysis.ofFiles request c' files' p := by
  have content : ∀ below ∈ places, (Selection.fileAt w root below).content =
      (Selection.fileAt w' root' below).content :=
    fun below mem => same.content_fileAt_eq (named below mem)
  have way (below : List String) : (Selection.fileAt w root below).below =
      (Selection.fileAt w' root' below).below := rfl
  refine ⟨fun labels => ?_, fun p textual => ⟨fun labels => ?_,
    fun request c c' settings measured => ?_⟩⟩
  · rw [ImportAnalysis.ofFiles, ImportAnalysis.ofFiles]
    refine congrArg _ (Analysis.Gathering.ofFiles_map_congr rfl rfl rfl fun below mem => ?_)
    exact Analysis.ImportedReport.ofFile?_congr (way below) (content below mem) _
  · rw [SyntaxAnalysis.ofFiles, SyntaxAnalysis.ofFiles]
    refine congrArg _ (Analysis.SyntaxPartial.ofFiles_map_congr fun below mem => ?_)
    exact Analysis.FileSyntax.ofFile?_congr textual (way below) (content below mem) labels.length
  · have gathered : (request.gathering p c).ofFiles (places.map (Selection.fileAt w root)) =
        (request.gathering p c').ofFiles (places.map (Selection.fileAt w' root')) := by
      refine Analysis.Gathering.ofFiles_map_congr ?_ ?_ ?_ fun below mem => ?_
      · exact congrArg Settings.keyLength settings
      · rfl
      · rfl
      · exact Analysis.FileScores.ofFile?_congr textual (way below) (content below mem) settings
          (measured below mem)
    rw [ScoreAnalysis.ofFiles, ScoreAnalysis.ofFiles, gathered, ScoreAnalysis.ofGathered,
      ScoreAnalysis.ofGathered, settings]

/-- Two directories with the same contents give selections for all endings and valid patterns. The
same paths below the directories are selected exactly when the patterns hit the whole paths of the
same candidates. Then the results of all analyses are the same, for every provider that makes trees
of texts alone, and for scores on condition that the programs that are asked measure the same for a
file wherever it lies. -/
theorem selections_agree_iff (same : SameContents w w' path path' root root' entries entries')
    (endings : List String) {excludes : List String} {globs : List Glob}
    (valid : Selection.readPatterns excludes = .ok globs) :
    ∃ s s' : Selection,
      Selection.ofRoot w path endings excludes = .ok s ∧
      Selection.ofRoot w' path' endings excludes = .ok s' ∧
      (s.files.map InputFile.below = s'.files.map InputFile.below ↔
        ∀ below ∈ Selection.candidates w root (.directory entries) endings globs,
          Selection.isHit globs (absoluteText (root ++ below)) =
            Selection.isHit globs (absoluteText (root' ++ below))) ∧
      (s.files.map InputFile.below = s'.files.map InputFile.below →
        (∀ labels, ImportAnalysis.ofFiles labels s.files = ImportAnalysis.ofFiles labels s'.files) ∧
        ∀ p : Provider, p.ReadsTextOnly →
          (∀ labels,
            SyntaxAnalysis.ofFiles labels s.files p = SyntaxAnalysis.ofFiles labels s'.files p) ∧
          ∀ (request : ScoreRequest) (c c' : Conditions), c.settings = c'.settings →
            (∀ below ∈ s.files.map InputFile.below,
              request.measured c (absoluteText (root ++ below)) =
                request.measured c' (absoluteText (root' ++ below))) →
            ScoreAnalysis.ofFiles request c s.files p =
              ScoreAnalysis.ofFiles request c' s'.files p) := by
  let places := Selection.chosen w root (.directory entries) endings globs
  refine ⟨_, _, Selection.ofRoot_eq same.found rfl same.wellNamed endings valid,
    Selection.ofRoot_eq same.found' rfl same.wellNamed' endings valid, ?_, ?_⟩
  · rw [Selection.map_below_map_fileAt, Selection.map_below_map_fileAt]
    exact same.chosen_eq_iff endings globs
  · rw [Selection.map_below_map_fileAt, Selection.map_below_map_fileAt]
    intro agree
    have named : ∀ below ∈ places, ∀ n ∈ below, IsName n := by
      intro below mem
      have found := List.mem_of_mem_filter (List.mem_of_mem_filter mem)
      exact (Selection.names_of_mem_found rfl same.wellNamed found).1
    obtain ⟨imports, sources⟩ := same.analyses_eq named
    have chosen : Selection.chosen w' root' (.directory entries') endings globs = places :=
      agree.symm
    rw [chosen]
    exact ⟨imports, sources⟩

/-- The same source in three directories. -/
def threeCopies : World :=
  let copy : Entry := .directory [("A.java", .file [])]
  ⟨.directory [("data", copy), ("mirror", copy), ("scaffolding", copy)], []⟩

theorem isSilent_threeCopies {place : List String}
    (mem : place ∈ [[], ["data"], ["mirror"], ["scaffolding"]]) :
    (IgnoreLevel.ofPlace threeCopies place).IsSilent := by
  have known : ∀ place ∈ [[], ["data"], ["mirror"], ["scaffolding"]],
      (∀ n ∈ place, IsName n) ∧
        ∀ names ∈ [[".ignore"], [".gitignore"], [".git", "info", "exclude"], [".git"]],
          (threeCopies.tree.seek (place ++ names)).isOk = false := by decide
  obtain ⟨named, nothing⟩ := known place mem
  exact IgnoreLevel.isSilent_of_seek rfl (by decide) named nothing

theorem sameContents_threeCopies (name name' : String)
    (mem : name ∈ ["data", "mirror", "scaffolding"])
    (mem' : name' ∈ ["data", "mirror", "scaffolding"]) :
    SameContents threeCopies threeCopies (absoluteText [name]) (absoluteText [name']) [name] [name']
      [("A.java", .file [])] [("A.java", .file [])] := by
  have placed : ∀ name ∈ ["data", "mirror", "scaffolding"],
      threeCopies.tree.at? [name] = some (.directory [("A.java", .file [])]) := by
    simp only [List.forall_mem_cons]
    exact ⟨rfl, rfl, rfl, fun _ mem => absurd mem List.not_mem_nil⟩
  have named : ∀ name ∈ ["data", "mirror", "scaffolding"], ∀ n ∈ [name], IsName n := by decide
  have quiet (name : String) : ∀ n < [name].length,
      (IgnoreLevel.ofPlace threeCopies ([name].take n)).IsSilent := by
    intro n small
    obtain rfl : n = 0 := Nat.lt_one_iff.mp small
    exact isSilent_threeCopies List.mem_cons_self
  exact .of_linkFree (placed name mem) (placed name' mem') (by decide) (by decide) (named name mem)
    (named name' mem') (quiet name) (quiet name')

/-- The word of the default pattern is in neither path, so the patterns hit the same paths. -/
theorem selections_agree_iff_threeCopies :
    SameContents threeCopies threeCopies "/data" "/mirror" ["data"] ["mirror"]
        [("A.java", .file [])] [("A.java", .file [])] ∧
      Selection.readPatterns Settings.default.exclude = .ok defaultGlobs ∧
      ∃ s s' : Selection,
        Selection.ofRoot threeCopies "/data" ["java"] Settings.default.exclude = .ok s ∧
        Selection.ofRoot threeCopies "/mirror" ["java"] Settings.default.exclude = .ok s' ∧
        s.files.map InputFile.below = s'.files.map InputFile.below ∧
        ∀ labels,
          SyntaxAnalysis.ofFiles labels s.files = SyntaxAnalysis.ofFiles labels s'.files := by
  have same := sameContents_threeCopies "data" "mirror" (by decide) (by decide)
  obtain ⟨s, s', selected, selected', agree, results⟩ :=
    selections_agree_iff same ["java"] readPatterns_default
  have both : s.files.map InputFile.below = s'.files.map InputFile.below := by
    refine agree.mpr fun below mem => ?_
    rw [isHit_default_of_mem_candidates rfl same.wellNamed mem,
      isHit_default_of_mem_candidates rfl same.wellNamed' (same.candidates_eq _ _ ▸ mem)]
    decide +kernel
  exact ⟨same, readPatterns_default, s, s', selected, selected', both,
    ((results both).2 .java Provider.java_readsTextOnly).1⟩

/-- The only file of a copy is a candidate. -/
theorem candidates_threeCopies :
    Selection.candidates threeCopies ["data"] (.directory [("A.java", .file [])]) ["java"]
      defaultGlobs = [["A.java"]] := by
  have silent : ∀ level ∈ IgnoreLevel.ofPlace threeCopies ["data"] ::
      IgnoreLevel.above threeCopies ["data"].dropLast, level.IsSilent :=
    List.forall_mem_cons.mpr ⟨isSilent_threeCopies (by decide),
      List.forall_mem_singleton.mpr (isSilent_threeCopies List.mem_cons_self)⟩
  have found : Selection.found threeCopies ["data"] (.directory [("A.java", .file [])]) =
      [["A.java"]] := by
    rw [Selection.found, Selection.search, Selection.searchAll, isSkipped_of_isSilent silent,
      if_neg (by decide), Selection.search, Selection.searchAll]
    exact List.mergeSort_singleton _
  have file : threeCopies.isDirectory (absoluteText (["data"] ++ ["A.java"])) = false := by
    rw [World.isDirectory_eq, World.map_snd_resolve_of_tree rfl (by decide) (by decide)]
    rfl
  have unhit : Selection.isHit defaultGlobs (join ["A.java"]) = false := by
    refine Bool.eq_false_iff.mpr fun hit => ?_
    have other : ¬Contains defaultWord (join ["A.java"]) := by decide +kernel
    exact other ((isHit_default_iff _).mp hit)
  have ending : Selection.hasEnding ["java"] "A.java" = true := by decide
  rw [Selection.candidates, found, List.filter_singleton, file, unhit]
  simp [ending]

/-- The third copy is lost: its only file is selected below the first directory, and not below the
one whose name is the word of the default pattern. -/
theorem selection_lost_threeCopies :
    SameContents threeCopies threeCopies "/data" "/scaffolding" ["data"] ["scaffolding"]
        [("A.java", .file [])] [("A.java", .file [])] ∧
      ∃ s s' : Selection,
        Selection.ofRoot threeCopies "/data" ["java"] Settings.default.exclude = .ok s ∧
        Selection.ofRoot threeCopies "/scaffolding" ["java"] Settings.default.exclude = .ok s' ∧
        s.files.map InputFile.below = [["A.java"]] ∧ s'.files.map InputFile.below = [] := by
  have same := sameContents_threeCopies "data" "scaffolding" (by decide) (by decide)
  have contains : Contains defaultWord (absoluteText ["scaffolding"]) := by decide +kernel
  have other : ¬Contains defaultWord (absoluteText ["data"]) := by decide +kernel
  refine ⟨same, _, _, Selection.ofRoot_eq same.found rfl same.wellNamed ["java"]
    readPatterns_default, Selection.ofRoot_eq same.found' rfl same.wellNamed' ["java"]
    readPatterns_default, ?_, ?_⟩
  · rw [chosen_default rfl same.wellNamed, if_neg other, candidates_threeCopies]
    rfl
  · rw [chosen_default rfl same.wellNamed', if_pos contains]
    rfl

/-- Under the default pattern nothing is selected below a root whose path contains the word. Below
two directories with the same contents the same paths are selected exactly when there are no
candidates, or the word is in the paths of both roots or of none. -/
theorem default_selections_agree_iff
    (same : SameContents w w' path path' root root' entries entries') (endings : List String) :
    ∃ s s' : Selection,
      Selection.ofRoot w path endings Settings.default.exclude = .ok s ∧
      Selection.ofRoot w' path' endings Settings.default.exclude = .ok s' ∧
      (Contains defaultWord (absoluteText root) → s.files = []) ∧
      (s.files.map InputFile.below = s'.files.map InputFile.below ↔
        Selection.candidates w root (.directory entries) endings defaultGlobs = [] ∨
          (Contains defaultWord (absoluteText root) ↔
            Contains defaultWord (absoluteText root'))) := by
  refine ⟨_, _, Selection.ofRoot_eq same.found rfl same.wellNamed endings readPatterns_default,
    Selection.ofRoot_eq same.found' rfl same.wellNamed' endings readPatterns_default, ?_, ?_⟩
  · intro contains
    rw [chosen_default rfl same.wellNamed, if_pos contains]
    rfl
  · rw [Selection.map_below_map_fileAt, Selection.map_below_map_fileAt,
      chosen_default rfl same.wellNamed, chosen_default rfl same.wellNamed', ← same.candidates_eq]
    by_cases h : Contains defaultWord (absoluteText root)
    · by_cases h' : Contains defaultWord (absoluteText root')
      · rw [if_pos h, if_pos h']
        exact iff_of_true rfl (.inr (iff_of_true h h'))
      · rw [if_pos h, if_neg h', eq_comm]
        exact ⟨.inl, fun either => either.resolve_right fun both => h' (both.mp h)⟩
    · by_cases h' : Contains defaultWord (absoluteText root')
      · rw [if_neg h, if_pos h']
        exact ⟨.inl, fun either => either.resolve_right fun both => h (both.mpr h')⟩
      · rw [if_neg h, if_neg h']
        exact iff_of_true rfl (.inr (iff_of_false h h'))

end Files

end SuiteMetrics
