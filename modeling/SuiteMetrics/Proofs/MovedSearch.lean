import Mathlib.Data.List.Basic
import Mathlib.Data.List.TakeDrop
import Mathlib.Data.List.TakeWhile
import SuiteMetrics.Files.Selection
import SuiteMetrics.Proofs.PlainTrees

/-!
A search in a directory that lies elsewhere.

Rules above a root that say nothing do not change a verdict, and neither does a level that is
consulted twice (`verdict?_append`). What a rule says of a place depends only on the way to it from
the rule's directory (`verdict?_relativeTo`). So the levels of a search can be given as they are
seen from its root (`SeenFrom`), and where all paths of names below two roots lead to the same, the
searches leave out the same places and find the same ones (`search_eq_of_readsAlike`). In which
order the entries of a directory are listed decides only the order in which places are found
(`Relisted.searchAll_perm`).
-/

namespace SuiteMetrics.Files

/-! ### Reading below two roots -/

/-- Whatever is asked of a path of names below a root has the same answer as below another root. -/
structure ReadsAlike (w w' : World) (root root' : List String) : Prop where
  read {below : List String} : (∀ n ∈ below, IsName n) →
    w.read (absoluteText (root ++ below)) = w'.read (absoluteText (root' ++ below))
  isDirectory {below : List String} : (∀ n ∈ below, IsName n) →
    w.isDirectory (absoluteText (root ++ below)) = w'.isDirectory (absoluteText (root' ++ below))
  pathExists {below : List String} : (∀ n ∈ below, IsName n) →
    w.pathExists (absoluteText (root ++ below)) = w'.pathExists (absoluteText (root' ++ below))

/-- Below directories that hold the same without links, the same is read. -/
theorem ReadsAlike.of_linkFree {w w' : World} {root root' : List String}
    {entries : List (String × Entry)} (placed : w.tree.at? root = some (.directory entries))
    (placed' : w'.tree.at? root' = some (.directory entries))
    (free : (Entry.directory entries).isLinkFree) (named : ∀ n ∈ root, IsName n)
    (named' : ∀ n ∈ root', IsName n) : ReadsAlike w w' root root' := by
  have same {below : List String} (ok : ∀ n ∈ below, IsName n) :
      (w.resolve (absoluteText (root ++ below))).map Prod.snd =
        (w'.resolve (absoluteText (root' ++ below))).map Prod.snd := by
    rw [World.map_snd_resolve_of_linkFree placed free (List.forall_mem_append.mpr ⟨named, ok⟩),
      World.map_snd_resolve_of_linkFree placed' free (List.forall_mem_append.mpr ⟨named', ok⟩)]
  refine ⟨fun ok => ?_, fun ok => ?_, fun ok => ?_⟩
  · rw [World.read_eq, World.read_eq, same ok]
  · rw [World.isDirectory_eq, World.isDirectory_eq, same ok]
  · rw [World.pathExists_eq, World.pathExists_eq, same ok]

/-! ### Levels -/

namespace IgnoreLevel

/-- A level without rules where no repository starts. -/
def IsSilent (level : IgnoreLevel) : Prop :=
  level.own = [] ∧ level.versioned = [] ∧ level.excluded = [] ∧ level.isRepository = false

/-- A level as it is seen from a root above it. -/
def relativeTo (root : List String) (level : IgnoreLevel) : IgnoreLevel :=
  { level with place := level.place.drop root.length }

theorem judge_relativeTo {root : List String} {level : IgnoreLevel} (inside : root <+: level.place)
    (rules : List IgnoreRule) (isDirectory : Bool) (below : List String) :
    (level.relativeTo root).judge rules isDirectory below =
      level.judge rules isDirectory (root ++ below) := by
  obtain ⟨way, place⟩ := inside
  have same : below.drop (level.relativeTo root).place.length =
      (root ++ below).drop level.place.length := by
    rw [relativeTo, ← place, List.drop_left, List.length_append, List.drop_length_add_append]
  rw [judge, judge, same]

/-- A level below a root is seen from there as the one below another root with the same
contents. -/
theorem relativeTo_ofPlace {w w' : World} {root root' below : List String}
    (alike : ReadsAlike w w' root root') (named : ∀ n ∈ below, IsName n) :
    (ofPlace w (root ++ below)).relativeTo root =
      (ofPlace w' (root' ++ below)).relativeTo root' := by
  have further (names : List String) (ok : ∀ n ∈ names, IsName n) :
      ∀ n ∈ below ++ names, IsName n := List.forall_mem_append.mpr ⟨named, ok⟩
  have rules (names : List String) (ok : ∀ n ∈ names, IsName n) :
      rulesIn w (root ++ below ++ names) = rulesIn w' (root' ++ below ++ names) := by
    rw [rulesIn, rulesIn, List.append_assoc, List.append_assoc, alike.read (further names ok)]
  have repository : w.pathExists (absoluteText (root ++ below ++ [".git"])) =
      w'.pathExists (absoluteText (root' ++ below ++ [".git"])) := by
    rw [List.append_assoc, List.append_assoc, alike.pathExists (further [".git"] (by decide))]
  simp only [ofPlace, relativeTo, List.drop_left, repository]
  rw [rules _ (by decide), rules _ (by decide), rules _ (by decide)]

/-- Where a tree without links has no files with rules and no repository, a level is silent. -/
theorem isSilent_of_seek {w : World} {entries : List (String × Entry)}
    (tree : w.tree = .directory entries) (free : w.tree.isLinkFree) {place : List String}
    (named : ∀ n ∈ place, IsName n)
    (nothing : ∀ names ∈ [[".ignore"], [".gitignore"], [".git", "info", "exclude"], [".git"]],
      (w.tree.seek (place ++ names)).isOk = false) : (ofPlace w place).IsSilent := by
  have fault (names : List String)
      (mem : names ∈ [[".ignore"], [".gitignore"], [".git", "info", "exclude"], [".git"]]) :
      ∃ fault, (w.resolve (absoluteText (place ++ names))).map Prod.snd = .error fault := by
    have good : ∀ names ∈ [[".ignore"], [".gitignore"], [".git", "info", "exclude"], [".git"]],
      ∀ n ∈ names, IsName n := by decide
    have missing := nothing names mem
    rw [← World.map_snd_resolve_of_tree tree free
      (List.forall_mem_append.mpr ⟨named, good names mem⟩)] at missing
    cases h : (w.resolve (absoluteText (place ++ names))).map Prod.snd with
    | ok e => rw [h] at missing; cases missing
    | error fault => exact ⟨fault, rfl⟩
  have rules (names : List String)
      (mem : names ∈ [[".ignore"], [".gitignore"], [".git", "info", "exclude"], [".git"]]) :
      rulesIn w (place ++ names) = [] := by
    obtain ⟨fault, h⟩ := fault names mem
    rw [rulesIn, World.read_eq, h]
  refine ⟨rules _ (by decide), rules _ (by decide), rules _ (by decide), ?_⟩
  obtain ⟨fault, h⟩ := fault [".git"] (by decide)
  rw [ofPlace, World.pathExists_eq, h]
  rfl

end IgnoreLevel

/-! ### Verdicts -/

/-- Elements that give nothing, or that have been tried before, add nothing. -/
theorem findSome?_append_of_forall {α β : Type} {f : α → Option β} {xs ys : List α}
    (h : ∀ y ∈ ys, f y = none ∨ y ∈ xs) : (xs ++ ys).findSome? f = xs.findSome? f := by
  rw [List.findSome?_append]
  cases found : xs.findSome? f with
  | some b => rfl
  | none =>
      have unfound : ys.findSome? f = none := by
        refine List.findSome?_eq_none_iff.mpr fun y mem => ?_
        rcases h y mem with nothing | before
        · exact nothing
        · exact List.findSome?_eq_none_iff.mp found y before
      rw [unfound]
      rfl

/-- Of some levels none starts a repository, or one is the nearest that does. -/
theorem exists_nearest_repository (levels : List IgnoreLevel) :
    (∀ level ∈ levels, level.isRepository = false) ∨
      ∃ inner level rest, levels = inner ++ level :: rest ∧
        (∀ level ∈ inner, level.isRepository = false) ∧ level.isRepository := by
  induction levels with
  | nil => exact .inl fun _ mem => absurd mem List.not_mem_nil
  | cons first levels ih =>
      cases starts : first.isRepository with
      | true =>
          exact .inr ⟨[], first, levels, rfl, fun _ mem => absurd mem List.not_mem_nil, starts⟩
      | false =>
          rcases ih with plain | ⟨inner, level, rest, rfl, plain, starts'⟩
          · exact .inl (List.forall_mem_cons.mpr ⟨starts, plain⟩)
          · exact .inr ⟨first :: inner, level, rest, rfl, List.forall_mem_cons.mpr ⟨starts, plain⟩,
              starts'⟩

theorem repositoryLevels_of_none {levels : List IgnoreLevel}
    (plain : ∀ level ∈ levels, level.isRepository = false) : repositoryLevels levels = [] := by
  have passed : levels.dropWhile (fun level => !level.isRepository) = [] :=
    List.dropWhile_eq_nil_iff.mpr fun level mem => by rw [plain level mem]; rfl
  rw [repositoryLevels, List.span_eq_takeWhile_dropWhile, passed]

theorem repositoryLevels_of_nearest {inner rest : List IgnoreLevel} {level : IgnoreLevel}
    (plain : ∀ level ∈ inner, level.isRepository = false) (starts : level.isRepository) :
    repositoryLevels (inner ++ level :: rest) = inner ++ [level] := by
  have passed : ∀ level ∈ inner, !level.isRepository := fun level mem => by
    rw [plain level mem]
    rfl
  rw [repositoryLevels, List.span_eq_takeWhile_dropWhile, List.takeWhile_append_of_pos passed,
    List.dropWhile_append_of_pos passed, List.takeWhile_cons, List.dropWhile_cons, starts]
  simp only [Bool.not_true, Bool.false_eq_true, if_false, List.append_nil]

theorem subset_of_repositoryLevels (levels : List IgnoreLevel) :
    repositoryLevels levels ⊆ levels := by
  rcases exists_nearest_repository levels with plain | ⟨inner, level, rest, rfl, plain, starts⟩
  · rw [repositoryLevels_of_none plain]
    exact List.nil_subset _
  · rw [repositoryLevels_of_nearest plain starts]
    intro found mem
    rcases List.mem_append.mp mem with mem | mem
    · exact List.mem_append_left _ mem
    · cases List.mem_singleton.mp mem
      exact List.mem_append_right _ List.mem_cons_self

theorem repositoryLevels_append {levels more : List IgnoreLevel}
    (idle : ∀ level ∈ more, level.isRepository = false ∨ level ∈ levels) :
    repositoryLevels (levels ++ more) = repositoryLevels levels := by
  rcases exists_nearest_repository levels with plain | ⟨inner, level, rest, rfl, plain, starts⟩
  · have plain' : ∀ level ∈ more, level.isRepository = false := by
      intro level mem
      rcases idle level mem with unused | before
      · exact unused
      · exact plain level before
    rw [repositoryLevels_of_none plain,
      repositoryLevels_of_none (List.forall_mem_append.mpr ⟨plain, plain'⟩)]
  · rw [List.append_assoc, List.cons_append, repositoryLevels_of_nearest plain starts,
      repositoryLevels_of_nearest plain starts]

theorem repositoryLevels_map_relativeTo (root : List String) (levels : List IgnoreLevel) :
    repositoryLevels (levels.map (IgnoreLevel.relativeTo root)) =
      (repositoryLevels levels).map (IgnoreLevel.relativeTo root) := by
  rcases exists_nearest_repository levels with plain | ⟨inner, level, rest, rfl, plain, starts⟩
  · have plain' : ∀ level ∈ levels.map (IgnoreLevel.relativeTo root), level.isRepository = false :=
      List.forall_mem_map.mpr plain
    rw [repositoryLevels_of_none plain, repositoryLevels_of_none plain']
    rfl
  · have plain' : ∀ level ∈ inner.map (IgnoreLevel.relativeTo root), level.isRepository = false :=
      List.forall_mem_map.mpr plain
    have starts' : (level.relativeTo root).isRepository := starts
    rw [List.map_append, List.map_cons, repositoryLevels_of_nearest plain starts,
      repositoryLevels_of_nearest plain' starts', List.map_append]
    rfl

/-- Levels that are silent, or that are consulted before, do not change a verdict. -/
theorem verdict?_append {levels more : List IgnoreLevel}
    (idle : ∀ level ∈ more, level.IsSilent ∨ level ∈ levels) (isDirectory : Bool)
    (place : List String) :
    verdict? (levels ++ more) isDirectory place = verdict? levels isDirectory place := by
  have own : ∀ level ∈ more,
      level.judge level.own isDirectory place = none ∨ level ∈ levels := by
    intro level mem
    rcases idle level mem with ⟨own, -⟩ | before
    · exact .inl (by rw [own]; rfl)
    · exact .inr before
  have repositories : ∀ level ∈ more, level.isRepository = false ∨ level ∈ levels := by
    intro level mem
    rcases idle level mem with ⟨-, -, -, plain⟩ | before
    · exact .inl plain
    · exact .inr before
  simp only [verdict?, findSome?_append_of_forall own, repositoryLevels_append repositories]

/-- Where no rules are, a search leaves out what begins with a point. -/
theorem isSkipped_of_isSilent {levels : List IgnoreLevel}
    (silent : ∀ level ∈ levels, level.IsSilent) (isDirectory : Bool) (place : List String) :
    isSkipped levels isDirectory place = ((place.getLast?.getD "").toList.head? == some '.') := by
  have unjudged : verdict? ([] ++ levels) isDirectory place = none :=
    verdict?_append (fun level mem => .inl (silent level mem)) isDirectory place
  rw [isSkipped, ← List.nil_append levels, unjudged]

/-- A verdict depends only on the way from a root to a place and to the levels. -/
theorem verdict?_relativeTo {root : List String} {levels : List IgnoreLevel}
    (inside : ∀ level ∈ levels, root <+: level.place) (isDirectory : Bool) (below : List String) :
    verdict? (levels.map (IgnoreLevel.relativeTo root)) isDirectory below =
      verdict? levels isDirectory (root ++ below) := by
  have first (rules : IgnoreLevel → List IgnoreRule)
      (kept : ∀ level, rules (level.relativeTo root) = rules level) (part : List IgnoreLevel)
      (among : part ⊆ levels) :
      (part.map (IgnoreLevel.relativeTo root)).findSome?
          (fun level => level.judge (rules level) isDirectory below) =
        part.findSome? fun level => level.judge (rules level) isDirectory (root ++ below) := by
    rw [List.findSome?_map, ← List.head?_filterMap, ← List.head?_filterMap]
    refine congrArg List.head? (List.filterMap_congr fun level mem => ?_)
    rw [Function.comp_apply, IgnoreLevel.judge_relativeTo (inside level (among mem)), kept]
  have near := subset_of_repositoryLevels levels
  simp only [verdict?, repositoryLevels_map_relativeTo]
  rw [first IgnoreLevel.own (fun _ => rfl) levels (List.Subset.refl _),
    first IgnoreLevel.versioned (fun _ => rfl) _ near,
    first IgnoreLevel.excluded (fun _ => rfl) _ near]

/-! ### Levels as they are seen from a root -/

/-- The levels of a search below a root are some levels below it, which are seen from there as the
given ones, and after them levels that do not matter. -/
inductive SeenFrom (root : List String) : List IgnoreLevel → List IgnoreLevel → Prop where
  | intro {levels more : List IgnoreLevel} : (∀ level ∈ levels, root <+: level.place) →
      (∀ level ∈ more, level.IsSilent ∨ level ∈ levels) →
        SeenFrom root (levels ++ more) (levels.map (IgnoreLevel.relativeTo root))

namespace SeenFrom

variable {root : List String} {levels seen : List IgnoreLevel}

/-- The level of one more directory below the root comes before the others. -/
theorem ofPlace (h : SeenFrom root levels seen) (w : World) (below : List String) :
    SeenFrom root (IgnoreLevel.ofPlace w (root ++ below) :: levels)
      ((IgnoreLevel.ofPlace w (root ++ below)).relativeTo root :: seen) := by
  obtain ⟨inside, idle⟩ := h
  have here : root <+: (IgnoreLevel.ofPlace w (root ++ below)).place :=
    List.prefix_append root below
  refine .intro (List.forall_mem_cons.mpr ⟨here, inside⟩) fun level mem => ?_
  exact (idle level mem).imp_right (List.mem_cons_of_mem _)

/-- What a search leaves out depends only on what is seen from its root. -/
theorem isSkipped_eq (h : SeenFrom root levels seen) (isDirectory : Bool) {below : List String}
    (nonempty : below ≠ []) :
    isSkipped levels isDirectory (root ++ below) = isSkipped seen isDirectory below := by
  obtain ⟨insides, idle⟩ := h
  rw [isSkipped, isSkipped, verdict?_append idle, verdict?_relativeTo insides,
    List.getLast?_append_of_ne_nil _ nonempty]

/-- Where no rules and no repositories are above a root, only the root's own level is seen. -/
theorem start {w : World}
    (quiet : ∀ n < root.length, (IgnoreLevel.ofPlace w (root.take n)).IsSilent) :
    SeenFrom root (IgnoreLevel.ofPlace w root :: IgnoreLevel.above w root.dropLast)
      [(IgnoreLevel.ofPlace w root).relativeTo root] := by
  let own := IgnoreLevel.ofPlace w root
  have inside : ∀ level ∈ [own], root <+: level.place :=
    List.forall_mem_singleton.mpr (List.prefix_refl root)
  have idle : ∀ level ∈ IgnoreLevel.above w root.dropLast, level.IsSilent ∨ level ∈ [own] := by
    intro level mem
    rw [IgnoreLevel.above, List.mem_reverse] at mem
    obtain ⟨n, within, rfl⟩ := List.mem_map.mp mem
    have small := List.mem_range.mp within
    by_cases uppermost : root = []
    · -- The root of the tree is consulted twice.
      subst uppermost
      exact .inr (List.mem_singleton.mpr (by rw [List.dropLast_nil, List.take_nil]))
    · have length := List.length_pos_of_ne_nil uppermost
      rw [List.length_dropLast] at small
      rw [List.dropLast_eq_take, List.take_take, Nat.min_eq_left (by omega)]
      exact .inl (quiet n (by omega))
  exact .intro inside idle

end SeenFrom

/-! ### Entries in another order -/

/-- Two lists hold the same entries: files with the same bytes, the same links, and directories that
hold the same, under the same names and in whatever order they are listed. -/
inductive Relisted : List (String × Entry) → List (String × Entry) → Prop where
  | nil : Relisted [] []
  | file {name : String} {content : Text.Utf8.Bytes} {rest rest' : List (String × Entry)} :
      Relisted rest rest' →
        Relisted ((name, .file content) :: rest) ((name, .file content) :: rest')
  | link {name target : String} {rest rest' : List (String × Entry)} :
      Relisted rest rest' →
        Relisted ((name, .link target) :: rest) ((name, .link target) :: rest')
  | directory {name : String} {entries entries' rest rest' : List (String × Entry)} :
      Relisted entries entries' → Relisted rest rest' →
        Relisted ((name, .directory entries) :: rest) ((name, .directory entries') :: rest')
  | swap {first second : String × Entry} {rest : List (String × Entry)} :
      Relisted (first :: second :: rest) (second :: first :: rest)
  | trans {entries entries' entries'' : List (String × Entry)} :
      Relisted entries entries' → Relisted entries' entries'' → Relisted entries entries''

namespace Relisted

variable {entries entries' : List (String × Entry)}

protected theorem refl : ∀ entries : List (String × Entry), Relisted entries entries
  | [] => .nil
  | (_, .file _) :: rest => .file (Relisted.refl rest)
  | (_, .link _) :: rest => .link (Relisted.refl rest)
  | (_, .directory entries) :: rest => .directory (Relisted.refl entries) (Relisted.refl rest)

theorem forAllIn_names (h : Relisted entries entries') (p : String → Bool) :
    Entry.forAllIn (fun name _ => p name) entries =
      Entry.forAllIn (fun name _ => p name) entries' := by
  induction h with
  | nil => rfl
  | file _ ih => rw [Entry.forAllIn, Entry.forAllIn, ih]
  | link _ ih => rw [Entry.forAllIn, Entry.forAllIn, ih]
  | directory _ _ below ih =>
      rw [Entry.forAllIn, Entry.forAllIn, ih, Entry.forAll, Entry.forAll, below]
  | swap =>
      simp only [Entry.forAllIn]
      exact Bool.and_left_comm _ _ _
  | trans _ _ ih ih' => exact ih.trans ih'

/-- A search finds the same places in whatever order it comes to them. -/
theorem searchAll_perm (h : Relisted entries entries') (w : World) (root place : List String)
    (levels : List IgnoreLevel) :
    (Selection.searchAll w root place levels entries).Perm
      (Selection.searchAll w root place levels entries') := by
  induction h generalizing place levels with
  | nil => exact .refl _
  | file _ ih =>
      rw [Selection.searchAll, Selection.searchAll]
      split
      · exact ih place levels
      · exact (ih place levels).append_left _
  | link _ ih =>
      rw [Selection.searchAll, Selection.searchAll]
      split
      · exact ih place levels
      · exact (ih place levels).append_left _
  | directory _ _ below ih =>
      rw [Selection.searchAll, Selection.searchAll, Entry.isDirectory, Entry.isDirectory]
      split
      · exact ih place levels
      · rw [Selection.search, Selection.search]
        exact (below _ _).append (ih place levels)
  | @swap first second rest =>
      simp only [Selection.searchAll]
      split <;> split
      · exact .refl _
      · exact .refl _
      · exact .refl _
      · exact List.perm_append_comm_assoc _ _ _
  | trans _ _ ih ih' => exact (ih place levels).trans (ih' place levels)

end Relisted

/-! ### Two searches -/

section Search

variable {w w' : World} {root root' : List String}

mutual

/-- Below two roots where the same is read, a search that sees the same levels finds the same
places. -/
theorem search_eq_of_readsAlike (alike : ReadsAlike w w' root root') :
    ∀ (e : Entry) {below : List String} {levels levels' seen : List IgnoreLevel},
      e.isWellNamed → (∀ n ∈ below, IsName n) → SeenFrom root levels seen →
        SeenFrom root' levels' seen →
          Selection.search w root (root ++ below) levels e =
            Selection.search w' root' (root' ++ below) levels' e
  | .directory entries, below, levels, levels', seen, wellNamed, named, sees, sees' => by
      rw [Selection.search, Selection.search]
      have here := sees.ofPlace w below
      have here' := sees'.ofPlace w' below
      rw [← IgnoreLevel.relativeTo_ofPlace alike named] at here'
      exact searchAll_eq_of_readsAlike alike entries wellNamed named here here'
  | .file _, below, _, _, _, _, _, _, _ => by
      rw [Selection.search, Selection.search, List.drop_left, List.drop_left]
  | .link _, below, _, _, _, _, _, _, _ => by
      rw [Selection.search, Selection.search, List.drop_left, List.drop_left]

theorem searchAll_eq_of_readsAlike (alike : ReadsAlike w w' root root') :
    ∀ (entries : List (String × Entry)) {below : List String}
      {levels levels' seen : List IgnoreLevel},
      Entry.forAllIn (fun name _ => decide (IsName name)) entries → (∀ n ∈ below, IsName n) →
        SeenFrom root levels seen → SeenFrom root' levels' seen →
          Selection.searchAll w root (root ++ below) levels entries =
            Selection.searchAll w' root' (root' ++ below) levels' entries
  | [], _, _, _, _, _, _, _, _ => by rw [Selection.searchAll, Selection.searchAll]
  | (name, e) :: rest, below, levels, levels', seen, wellNamed, named, sees, sees' => by
      rw [Entry.forAllIn, Bool.and_eq_true, Bool.and_eq_true] at wellNamed
      obtain ⟨⟨isName, deeper⟩, others⟩ := wellNamed
      have here : ∀ n ∈ below ++ [name], IsName n :=
        List.forall_mem_append.mpr ⟨named, List.forall_mem_singleton.mpr (of_decide_eq_true isName)⟩
      have nonempty : below ++ [name] ≠ [] :=
        List.append_ne_nil_of_right_ne_nil _ (List.cons_ne_nil _ _)
      rw [Selection.searchAll, Selection.searchAll, List.append_assoc, List.append_assoc,
        sees.isSkipped_eq _ nonempty, sees'.isSkipped_eq _ nonempty,
        searchAll_eq_of_readsAlike alike rest others named sees sees',
        search_eq_of_readsAlike alike e deeper here sees sees']

end

mutual

/-- The way to a found place is made of names, and it goes on from where the search starts. -/
theorem names_of_mem_search : ∀ (e : Entry) {below found : List String} {levels : List IgnoreLevel},
    e.isWellNamed → (∀ n ∈ below, IsName n) →
      found ∈ Selection.search w root (root ++ below) levels e →
        (∀ n ∈ found, IsName n) ∧ (below ≠ [] ∨ e.isDirectory → found ≠ [])
  | .directory entries, below, found, levels, wellNamed, named, mem => by
      rw [Selection.search] at mem
      obtain ⟨names, nonempty⟩ := names_of_mem_searchAll entries wellNamed named mem
      exact ⟨names, fun _ => nonempty⟩
  | .file _, below, found, _, _, named, mem => by
      rw [Selection.search, List.mem_singleton, List.drop_left] at mem
      subst mem
      exact ⟨named, fun start => start.elim id fun directory => nomatch directory⟩
  | .link _, below, found, _, _, named, mem => by
      rw [Selection.search, List.mem_singleton, List.drop_left] at mem
      subst mem
      exact ⟨named, fun start => start.elim id fun directory => nomatch directory⟩

theorem names_of_mem_searchAll :
    ∀ (entries : List (String × Entry)) {below found : List String} {levels : List IgnoreLevel},
      Entry.forAllIn (fun name _ => decide (IsName name)) entries → (∀ n ∈ below, IsName n) →
        found ∈ Selection.searchAll w root (root ++ below) levels entries →
          (∀ n ∈ found, IsName n) ∧ found ≠ []
  | [], _, _, _, _, _, mem => by
      rw [Selection.searchAll] at mem
      cases mem
  | (name, e) :: rest, below, found, levels, wellNamed, named, mem => by
      rw [Entry.forAllIn, Bool.and_eq_true, Bool.and_eq_true] at wellNamed
      obtain ⟨⟨isName, deeper⟩, others⟩ := wellNamed
      have here : ∀ n ∈ below ++ [name], IsName n :=
        List.forall_mem_append.mpr ⟨named, List.forall_mem_singleton.mpr (of_decide_eq_true isName)⟩
      rw [Selection.searchAll, List.append_assoc] at mem
      split at mem
      · exact names_of_mem_searchAll rest others named mem
      · rcases List.mem_append.mp mem with mem | mem
        · obtain ⟨names, nonempty⟩ := names_of_mem_search e deeper here mem
          refine ⟨names, nonempty (.inl ?_)⟩
          exact List.append_ne_nil_of_right_ne_nil _ (List.cons_ne_nil _ _)
        · exact names_of_mem_searchAll rest others named mem

end

end Search

end SuiteMetrics.Files
