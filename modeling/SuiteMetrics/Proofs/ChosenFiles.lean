import Mathlib.Data.List.Lex
import Mathlib.Data.String.Basic
import SuiteMetrics.Proofs.MovedSearch

/-!
The files that are chosen below a root.

Exclude patterns are tried on the path of a file below the root and also on its whole path. The
files that the former leave are the `candidates`, and the `chosen` ones are those of them whose
whole path is not hit either; a selection holds exactly these (`ofRoot_eq`). Below two directories
with the same contents the candidates are the same (`SameContents.candidates_eq`). The names of the
directories and of those above them take part in the whole paths, so the chosen files are the same
exactly when the patterns hit the whole paths of the same candidates (`SameContents.chosen_eq_iff`).
-/

namespace SuiteMetrics.Files

namespace Selection

/-- Whether a pattern matches a path. -/
def isHit (globs : List Glob) (path : String) : Bool :=
  globs.any fun glob => glob.accepts (Text.Utf8.encode path)

theorem isExcluded_eq (globs : List Glob) (path relative : String) :
    isExcluded globs path relative = (isHit globs relative || isHit globs path) := by
  rw [isExcluded, isHit, isHit]
  induction globs with
  | nil => rfl
  | cons glob rest ih => simp only [List.any_cons, ih, Bool.or_assoc, Bool.or_left_comm]

/-- The places that a search below a root finds, in order. -/
def found (w : World) (root : List String) (e : Entry) : List (List String) :=
  (search w root root (IgnoreLevel.above w root.dropLast) e).mergeSort placeLe

theorem placeLe_iff {a b : List String} : placeLe a b ↔ a ≤ b := by
  rw [placeLe, Bool.not_eq_true', decide_eq_false_iff_not, not_lt]

/-- In order, places are the same however they were found. -/
theorem mergeSort_eq_of_perm {places places' : List (List String)} (perm : places.Perm places') :
    places.mergeSort placeLe = places'.mergeSort placeLe := by
  have ordered (places : List (List String)) :
      (places.mergeSort placeLe).Pairwise fun a b => placeLe a b := by
    refine List.pairwise_mergeSort (fun a b c => ?_) (fun a b => ?_) places
    · rw [placeLe_iff, placeLe_iff, placeLe_iff]
      exact le_trans
    · rw [Bool.or_eq_true, placeLe_iff, placeLe_iff]
      exact le_total a b
  have same := (List.mergeSort_perm places placeLe).trans
    (perm.trans (List.mergeSort_perm places' placeLe).symm)
  refine same.eq_of_pairwise (fun a b _ _ le le' => ?_) (ordered places) (ordered places')
  exact le_antisymm (placeLe_iff.mp le) (placeLe_iff.mp le')

/-- The places of the files below a root with one of some endings that no pattern hits on the path
below the root. -/
def candidates (w : World) (root : List String) (e : Entry) (endings : List String)
    (globs : List Glob) : List (List String) :=
  (found w root e).filter fun below =>
    !w.isDirectory (absoluteText (root ++ below)) && hasEnding endings (below.getLast?.getD "") &&
      !isHit globs (join below)

/-- The candidates whose whole path no pattern hits. -/
def chosen (w : World) (root : List String) (e : Entry) (endings : List String)
    (globs : List Glob) : List (List String) :=
  (candidates w root e endings globs).filter fun below =>
    !isHit globs (absoluteText (root ++ below))

/-- The file at a place below a root. -/
def fileAt (w : World) (root below : List String) : InputFile :=
  ⟨absoluteText (root ++ below), below, w.read (absoluteText (root ++ below))⟩

/-- The paths below the root of the files at some places are these places. -/
theorem map_below_map_fileAt (w : World) (root : List String) (places : List (List String)) :
    (places.map (fileAt w root)).map InputFile.below = places :=
  (List.map_map ..).trans (List.map_id places)

/-- The ways from a directory to the places that are found below it are made of names. -/
theorem names_of_mem_found {w : World} {root below : List String} {e : Entry}
    (directory : e.isDirectory) (wellNamed : e.isWellNamed) (mem : below ∈ found w root e) :
    (∀ n ∈ below, IsName n) ∧ below ≠ [] := by
  have mem' : below ∈ search w root (root ++ []) (IgnoreLevel.above w root.dropLast) e := by
    rw [List.append_nil]
    exact List.mem_mergeSort.mp mem
  have top : ∀ n ∈ ([] : List String), IsName n := fun _ h => absurd h List.not_mem_nil
  obtain ⟨names, nonempty⟩ := names_of_mem_search e wellNamed top mem'
  exact ⟨names, nonempty (.inr directory)⟩

/-- A place below a root is tested by the path below the root and by the whole path. -/
theorem take?_eq {w : World} {root below : List String} (nonempty : below ≠ [])
    (endings : List String) (globs : List Glob) :
    take? w root endings globs below =
      if (!w.isDirectory (absoluteText (root ++ below)) &&
          hasEnding endings (below.getLast?.getD "") && !isHit globs (join below)) &&
            !isHit globs (absoluteText (root ++ below)) then
        some (fileAt w root below)
      else none := by
  rw [take?, isExcluded_eq, List.getLast?_append_of_ne_nil _ nonempty, Bool.not_or,
    ← Bool.and_assoc]
  rfl

/-- A directory and valid patterns give a selection: the files at the chosen places. -/
theorem ofRoot_eq {w : World} {path : String} {root : List String} {e : Entry}
    (resolved : w.resolve path = .ok (root, e)) (directory : e.isDirectory)
    (wellNamed : e.isWellNamed) (endings : List String) {excludes : List String}
    {globs : List Glob} (valid : readPatterns excludes = .ok globs) :
    ofRoot w path endings excludes =
      .ok ⟨root, (chosen w root e endings globs).map (fileAt w root)⟩ := by
  have files : (found w root e).filterMap (take? w root endings globs) =
      (chosen w root e endings globs).map (fileAt w root) := by
    rw [chosen, candidates, List.filter_filter, ← List.filterMap_eq_map', List.filterMap_filter]
    refine List.filterMap_congr fun below mem => ?_
    rw [take?_eq (names_of_mem_found directory wellNamed mem).2, Bool.and_comm]
  rw [found] at files
  simp only [ofRoot, resolved, valid, bind, Except.bind, pure, Except.pure, files]

end Selection

/-! ### The same contents at two places -/

/-- Two paths lead to directories with the same contents: they hold the same entries in whatever
order, the names of these are names that entries can have, and the paths below the directories lead
to the same, through links or not. Above the directories there are no rules and no repositories. -/
structure SameContents (w w' : World) (path path' : String) (root root' : List String)
    (entries entries' : List (String × Entry)) : Prop where
  found : w.resolve path = .ok (root, .directory entries)
  found' : w'.resolve path' = .ok (root', .directory entries')
  relisted : Relisted entries entries'
  wellNamed : (Entry.directory entries).isWellNamed
  alike : ReadsAlike w w' root root'
  quiet : ∀ n < root.length, (IgnoreLevel.ofPlace w (root.take n)).IsSilent
  quiet' : ∀ n < root'.length, (IgnoreLevel.ofPlace w' (root'.take n)).IsSilent

namespace SameContents

variable {w w' : World} {path path' : String} {root root' : List String}
  {entries entries' : List (String × Entry)}

/-- The contents of directories without links are the same wherever these lie. -/
theorem of_linkFree (placed : w.tree.at? root = some (.directory entries))
    (placed' : w'.tree.at? root' = some (.directory entries))
    (free : (Entry.directory entries).isLinkFree)
    (wellNamed : (Entry.directory entries).isWellNamed)
    (named : ∀ n ∈ root, IsName n) (named' : ∀ n ∈ root', IsName n)
    (quiet : ∀ n < root.length, (IgnoreLevel.ofPlace w (root.take n)).IsSilent)
    (quiet' : ∀ n < root'.length, (IgnoreLevel.ofPlace w' (root'.take n)).IsSilent) :
    SameContents w w' (absoluteText root) (absoluteText root') root root' entries entries where
  found := World.resolve_absoluteText placed named
  found' := World.resolve_absoluteText placed' named'
  relisted := .refl entries
  wellNamed := wellNamed
  alike := .of_linkFree placed placed' free named named'
  quiet := quiet
  quiet' := quiet'

theorem wellNamed' (same : SameContents w w' path path' root root' entries entries') :
    (Entry.directory entries').isWellNamed := by
  have wellNamed := same.wellNamed
  rw [Entry.isWellNamed, Entry.forAll] at wellNamed ⊢
  rwa [← same.relisted.forAllIn_names]

/-- The same places are found below both directories. -/
theorem found_eq (same : SameContents w w' path path' root root' entries entries') :
    Selection.found w root (.directory entries) =
      Selection.found w' root' (.directory entries') := by
  have top : ∀ n ∈ ([] : List String), IsName n := fun _ mem => absurd mem List.not_mem_nil
  have level := IgnoreLevel.relativeTo_ofPlace same.alike top
  rw [List.append_nil, List.append_nil] at level
  have seen' := level ▸ SeenFrom.start same.quiet'
  have moved := searchAll_eq_of_readsAlike same.alike entries same.wellNamed top
    (.start same.quiet) seen'
  rw [List.append_nil, List.append_nil] at moved
  rw [Selection.found, Selection.found, Selection.search, Selection.search, moved]
  exact Selection.mergeSort_eq_of_perm (same.relisted.searchAll_perm w' root' root' _)

/-- The same candidates are found below both directories. -/
theorem candidates_eq (same : SameContents w w' path path' root root' entries entries')
    (endings : List String) (globs : List Glob) :
    Selection.candidates w root (.directory entries) endings globs =
      Selection.candidates w' root' (.directory entries') endings globs := by
  rw [Selection.candidates, Selection.candidates, ← same.found_eq]
  refine List.filter_congr fun below mem => ?_
  have named := (Selection.names_of_mem_found rfl same.wellNamed mem).1
  rw [same.alike.isDirectory named]

/-- The same files are chosen below both directories exactly when the patterns hit the whole paths
of the same candidates. -/
theorem chosen_eq_iff (same : SameContents w w' path path' root root' entries entries')
    (endings : List String) (globs : List Glob) :
    Selection.chosen w root (.directory entries) endings globs =
        Selection.chosen w' root' (.directory entries') endings globs ↔
      ∀ below ∈ Selection.candidates w root (.directory entries) endings globs,
        Selection.isHit globs (absoluteText (root ++ below)) =
          Selection.isHit globs (absoluteText (root' ++ below)) := by
  rw [Selection.chosen, Selection.chosen, ← same.candidates_eq]
  constructor
  · intro chosen below mem
    have both := congrArg (below ∈ ·) chosen
    simp only [List.mem_filter, mem, true_and, Bool.not_eq_true', eq_iff_iff] at both
    exact Bool.eq_iff_iff.mpr (by simpa using not_congr both)
  · intro hits
    exact List.filter_congr fun below mem => by rw [hits below mem]

/-- The files at one place below both directories have the same content. -/
theorem content_fileAt_eq (same : SameContents w w' path path' root root' entries entries')
    {below : List String} (named : ∀ n ∈ below, IsName n) :
    (Selection.fileAt w root below).content = (Selection.fileAt w' root' below).content :=
  same.alike.read named

end SameContents

end SuiteMetrics.Files
