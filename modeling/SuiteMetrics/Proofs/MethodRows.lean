import SuiteMetrics.Proofs.Declarations
import SuiteMetrics.Proofs.MeasuredValues

/-!
The rows of the methods of a file.

Every policy of a request lists the methods of a file with their scores, and the lists are joined by
the first line and the name of a method. `MethodRow.Describes` says that a row is about a
declaration of the tree and has its scores under all policies. Rows and declarations correspond one
to one exactly when no two declarations share both their first line and their name
(`rows_correspond_iff`); declarations that do share them are put into one row.
-/

namespace SuiteMetrics.Scoring

theorem PolicyKind.metric_injective : Function.Injective PolicyKind.metric := by
  intro a b same
  cases a <;> cases b <;> first | rfl | cases same

end SuiteMetrics.Scoring

namespace SuiteMetrics.Analysis

open Scoring (MethodScore PolicyKind Score Traversal methodScore)
open Syntax (Node Tree)

/-! ### Places -/

def MethodPlace.rank (p : MethodPlace) : Nat ×ₗ String := toLex (p.startLine, p.name)

theorem MethodPlace.rank_injective : Function.Injective MethodPlace.rank := by
  rintro ⟨line, name⟩ ⟨line', name'⟩ same
  obtain ⟨rfl, rfl⟩ := Prod.mk.inj (toLex.injective same)
  rfl

theorem MethodPlace.rank_lt_iff {p q : MethodPlace} : p.rank < q.rank ↔ p < q := by
  rw [rank, rank, Prod.Lex.toLex_lt_toLex]
  exact Iff.rfl

instance : IsStrictTotalOrder MethodPlace (· < ·) :=
  RelEmbedding.isStrictTotalOrder
    ⟨⟨MethodPlace.rank, MethodPlace.rank_injective⟩, MethodPlace.rank_lt_iff⟩

/-- The place of a declaration among the rows. -/
def placeOf (t : Tree) (n : Node) : MethodPlace :=
  ⟨n.startRow + 1, Scoring.methodName t.source n⟩

/-- The place of a row. -/
def MethodRow.place (row : MethodRow) : MethodPlace := ⟨row.startLine, row.name⟩

/-- A row is about a declaration and has its scores under some policies, and no others. -/
structure MethodRow.Describes (traversal : Traversal) (kinds : List PolicyKind) (t : Tree)
    (row : MethodRow) (n : Node) : Prop where
  name : row.name = Scoring.methodName t.source n
  startLine : row.startLine = n.startRow + 1
  endLine : row.endLine = n.endRow + 1
  score : ∀ kind ∈ kinds, Assoc.get? kind.metric row.values =
    some (methodScore traversal kind.policy t n).score
  only : ∀ metric, metric ∉ kinds.map PolicyKind.metric → Assoc.get? metric row.values = none

/-- Rows and the declarations of a tree correspond one to one. -/
def Correspond (traversal : Traversal) (kinds : List PolicyKind) (t : Tree)
    (rows : List MethodRow) : Prop :=
  ∃ ns, List.Forall₂ (MethodRow.Describes traversal kinds t) rows ns ∧
    ns.Perm (Scoring.methods t)

/-! ### The policies of a request -/

theorem nodup_eraseDups {α : Type} [DecidableEq α] (xs : List α) : xs.eraseDups.Nodup := by
  induction length : xs.length using Nat.strong_induction_on generalizing xs with
  | _ n ih =>
      cases xs with
      | nil => exact List.nodup_nil
      | cons x xs =>
          rw [List.eraseDups_cons, List.nodup_cons]
          refine ⟨by simp, ih _ ?_ _ rfl⟩
          rw [← length]
          exact Nat.lt_succ_of_le (List.length_filter_le _ _)

/-- No two policies of a request give the same metric. -/
theorem ScoreRequest.nodup_metrics_policies (r : ScoreRequest) :
    (r.policies.map PolicyKind.metric).Nodup := by
  refine List.Nodup.map Scoring.PolicyKind.metric_injective ?_
  refine (nodup_eraseDups r.sources).filterMap ?_
  intro a b kind ha hb
  cases a <;> cases ha <;> cases b <;> cases hb <;> rfl

/-! ### The rows of one policy after another -/

/-- The rows with the list of one more policy. -/
def addMethods (traversal : Traversal) (t : Tree) (rows : MethodRows) (kind : PolicyKind) :
    MethodRows :=
  (Scoring.methodScores traversal kind.policy t).foldl
    (fun rows m => MethodRows.put rows kind.metric m) rows

/-- The rows of a tree under some policies. -/
def methodRows (traversal : Traversal) (t : Tree) (kinds : List PolicyKind) : MethodRows :=
  kinds.foldl (addMethods traversal t) []

theorem methods_foldl_addPolicy (traversal : Traversal) (t : Tree) (kinds : List PolicyKind)
    (s : Scores) :
    (kinds.foldl (Scores.addPolicy traversal true t) s).methods =
      kinds.foldl (addMethods traversal t) s.methods := by
  induction kinds generalizing s with
  | nil => rfl
  | cons kind kinds ih => rw [List.foldl_cons, List.foldl_cons, ih]; rfl

theorem methods_foldl_addInstrument (run : Tool.Runner) (path : String)
    (instruments : List Tool.Instrument) (s : Scores) :
    (instruments.foldl (Scores.addInstrument run path) s).methods = s.methods := by
  induction instruments generalizing s with
  | nil => rfl
  | cons i instruments ih => rw [List.foldl_cons, ih]; rfl

/-- The rows of a file are those of the policies; instruments add none. -/
theorem FileScores.methods_ofTree {request : ScoreRequest} (byMethod : request.byMethod = true)
    (conditions : Conditions) (f : Files.InputFile) (t : Tree) :
    (ofTree request conditions f t).methods =
      (methodRows conditions.settings.traversal t request.policies).map Prod.snd := by
  rw [ofTree, methods_foldl_addInstrument, byMethod, methods_foldl_addPolicy]
  rfl

/-! ### Rows stand at their places -/

/-- Rows stand in ascending order, each at its own place. -/
structure MethodRows.Placed (rows : MethodRows) : Prop where
  ascending : Assoc.Ascending rows
  place : ∀ e ∈ rows, e.1 = e.2.place

theorem MethodRows.Placed.put {rows : MethodRows} (h : rows.Placed) (metric : Metric)
    (m : MethodScore) : (rows.put metric m).Placed where
  ascending := Assoc.ascending_update _ _ h.ascending
  place := by
    rintro ⟨p, row⟩ mem
    have read := (Assoc.mem_iff_get? (Assoc.ascending_update _ _ h.ascending)).mp mem
    rw [Assoc.get?_update _ _ h.ascending] at read
    split at read
    case isTrue same =>
        cases read
        cases before : Assoc.get? (⟨m.startLine, m.name⟩ : MethodPlace) rows with
        | none => exact same
        | some row => exact same.trans (h.place _ (Assoc.mem_of_get? before))
    case isFalse => exact h.place _ (Assoc.mem_of_get? read)

theorem placed_methodRows (traversal : Traversal) (t : Tree) (kinds : List PolicyKind) :
    (methodRows traversal t kinds).Placed := by
  refine List.foldlRecOn (motive := MethodRows.Placed) kinds _ ⟨List.Pairwise.nil, ?_⟩ ?_
  · intro e mem
    cases mem
  · intro rows placed kind _
    refine List.foldlRecOn (motive := MethodRows.Placed) _ _ placed ?_
    intro rows placed m _
    exact placed.put kind.metric m

/-- No two rows have the same place. -/
theorem MethodRows.Placed.nodup {rows : MethodRows} (h : rows.Placed) :
    ((rows.map Prod.snd).map MethodRow.place).Nodup := by
  rw [List.map_map]
  have places : rows.map (MethodRow.place ∘ Prod.snd) = rows.map Prod.fst :=
    List.map_congr_left fun e mem => (h.place e mem).symm
  rw [places]
  exact Assoc.nodup_keys h.ascending

/-! ### Declarations at different places -/

/-- The scores of a declaration put among values. -/
def scoresOf (traversal : Traversal) (t : Tree) (n : Node) (kinds : List PolicyKind)
    (values : MetricValues Score) : MetricValues Score :=
  kinds.foldl (fun values kind =>
    values.put kind.metric (methodScore traversal kind.policy t n).score) values

def blankRow (t : Tree) (n : Node) : MethodRow :=
  ⟨Scoring.methodName t.source n, n.startRow + 1, n.endRow + 1, []⟩

/-- The row of a declaration. -/
def scoredRow (traversal : Traversal) (t : Tree) (kinds : List PolicyKind) (n : Node) :
    MethodRow :=
  { blankRow t n with values := scoresOf traversal t n kinds [] }

theorem describes_scoredRow {kinds : List PolicyKind}
    (metrics : (kinds.map PolicyKind.metric).Nodup) (traversal : Traversal) (t : Tree)
    (n : Node) : (scoredRow traversal t kinds n).Describes traversal kinds t n where
  name := rfl
  startLine := rfl
  endLine := rfl
  score _ mem := Assoc.get?_foldl_update_of_mem metrics mem List.Pairwise.nil
  only _ fresh := Assoc.get?_foldl_update_of_notMem fresh List.Pairwise.nil

section Distinct

variable {t : Tree} {rows : MethodRows}

/-- The row at the place of a declaration, or a blank one if there is none. -/
def rowAt (t : Tree) (rows : MethodRows) (n : Node) : MethodRow :=
  (Assoc.get? (placeOf t n) rows).getD (blankRow t n)

theorem ascending_addMethods (ascending : Assoc.Ascending rows) (traversal : Traversal)
    (kind : PolicyKind) : Assoc.Ascending (addMethods traversal t rows kind) :=
  Assoc.ascending_foldl_update _ ascending

/-- The list of one policy adds its score to the row of every declaration. -/
theorem get?_addMethods_of_mem (distinct : ((Scoring.methods t).map (placeOf t)).Nodup)
    (ascending : Assoc.Ascending rows) (traversal : Traversal) (kind : PolicyKind) {n : Node}
    (mem : n ∈ Scoring.methods t) :
    Assoc.get? (placeOf t n) (addMethods traversal t rows kind) =
      some { rowAt t rows n with
        values := scoresOf traversal t n [kind] (rowAt t rows n).values } := by
  rw [addMethods, Scoring.methodScores_eq_map, List.foldl_map]
  exact Assoc.get?_foldl_update_of_mem distinct mem ascending

theorem get?_addMethods_of_notMem {p : MethodPlace} (ascending : Assoc.Ascending rows)
    (fresh : p ∉ (Scoring.methods t).map (placeOf t)) (traversal : Traversal)
    (kind : PolicyKind) :
    Assoc.get? p (addMethods traversal t rows kind) = Assoc.get? p rows := by
  rw [addMethods, Scoring.methodScores_eq_map, List.foldl_map]
  exact Assoc.get?_foldl_update_of_notMem fresh ascending

/-- After a first policy, the row of every declaration is there and gets the scores of the others
one after another. -/
theorem get?_foldl_addMethods (distinct : ((Scoring.methods t).map (placeOf t)).Nodup)
    (ascending : Assoc.Ascending rows) (traversal : Traversal) {n : Node}
    (mem : n ∈ Scoring.methods t) (kind : PolicyKind) (kinds : List PolicyKind) :
    Assoc.get? (placeOf t n) ((kind :: kinds).foldl (addMethods traversal t) rows) =
      some { rowAt t rows n with
        values := scoresOf traversal t n (kind :: kinds) (rowAt t rows n).values } := by
  have added := get?_addMethods_of_mem distinct ascending traversal kind mem
  induction kinds generalizing rows kind with
  | nil => exact added
  | cons next kinds ih =>
      have ascending' := ascending_addMethods (t := t) ascending traversal kind
      have later := ih ascending' next
        (get?_addMethods_of_mem distinct ascending' traversal next mem)
      rw [List.foldl_cons, later, rowAt, added]
      rfl

theorem get?_foldl_addMethods_of_notMem {p : MethodPlace} (ascending : Assoc.Ascending rows)
    (fresh : p ∉ (Scoring.methods t).map (placeOf t)) (traversal : Traversal)
    (kinds : List PolicyKind) :
    Assoc.get? p (kinds.foldl (addMethods traversal t) rows) = Assoc.get? p rows := by
  induction kinds generalizing rows with
  | nil => rfl
  | cons kind kinds ih =>
      rw [List.foldl_cons, ih (ascending_addMethods ascending traversal kind),
        get?_addMethods_of_notMem ascending fresh]

/-- When declarations have different places, there is one row for each of them and no other. -/
theorem perm_map_scoredRow (distinct : ((Scoring.methods t).map (placeOf t)).Nodup)
    (traversal : Traversal) {kinds : List PolicyKind} (some_ : kinds ≠ []) :
    ((methodRows traversal t kinds).map Prod.snd).Perm
      ((Scoring.methods t).map (scoredRow traversal t kinds)) := by
  have ascending := (placed_methodRows traversal t kinds).ascending
  have read : ∀ n ∈ Scoring.methods t, Assoc.get? (placeOf t n) (methodRows traversal t kinds) =
      some (scoredRow traversal t kinds n) := by
    intro n mem
    cases kinds with
    | nil => exact absurd rfl some_
    | cons kind kinds =>
        exact get?_foldl_addMethods distinct List.Pairwise.nil traversal mem kind kinds
  have perm : (methodRows traversal t kinds).Perm
      ((Scoring.methods t).map fun n => (placeOf t n, scoredRow traversal t kinds n)) := by
    refine (List.perm_ext_iff_of_nodup ?_ ?_).mpr ?_
    · refine ascending.imp ?_
      rintro a _ lt rfl
      exact irrefl a.1 lt
    · refine List.Nodup.of_map Prod.fst ?_
      rw [List.map_map]
      exact distinct
    · rintro ⟨p, row⟩
      rw [Assoc.mem_iff_get? ascending, List.mem_map]
      constructor
      · intro held
        by_cases known : p ∈ (Scoring.methods t).map (placeOf t)
        · obtain ⟨n, mem, rfl⟩ := List.mem_map.mp known
          rw [read n mem, Option.some.injEq] at held
          exact ⟨n, mem, by rw [held]⟩
        · rw [methodRows, get?_foldl_addMethods_of_notMem List.Pairwise.nil known] at held
          cases held
      · rintro ⟨n, mem, same⟩
        cases same
        exact read n mem
  have rows := perm.map Prod.snd
  rwa [List.map_map] at rows

end Distinct

/-! ### Correspondence -/

/-- Described declarations stand at the places of their rows. -/
theorem map_placeOf_eq_map_place {traversal : Traversal} {kinds : List PolicyKind} {t : Tree}
    {rows : List MethodRow} {ns : List Node}
    (h : List.Forall₂ (MethodRow.Describes traversal kinds t) rows ns) :
    ns.map (placeOf t) = rows.map MethodRow.place := by
  induction h with
  | nil => rfl
  | @cons row n rows ns describes _ ih =>
      rw [List.map_cons, List.map_cons, ih, placeOf, MethodRow.place, describes.name,
        describes.startLine]

/-- When methods are listed and some policy is chosen, the rows of a file correspond one to one to
the declarations of its tree exactly when no two declarations have both the same first line and the
same name. -/
theorem rows_correspond_iff (request : ScoreRequest) (conditions : Conditions)
    (f : Files.InputFile) (t : Tree) (byMethod : request.byMethod = true)
    (chosen : request.policies ≠ []) :
    Correspond conditions.settings.traversal request.policies t
        (FileScores.ofTree request conditions f t).methods ↔
      ((Scoring.methods t).map (placeOf t)).Nodup := by
  rw [FileScores.methods_ofTree byMethod]
  constructor
  · rintro ⟨ns, describes, perm⟩
    rw [← (perm.map (placeOf t)).nodup_iff, map_placeOf_eq_map_place describes]
    exact (placed_methodRows _ t request.policies).nodup
  · intro distinct
    refine List.perm_comp_forall₂
      (perm_map_scoredRow distinct conditions.settings.traversal chosen) ?_
    rw [List.forall₂_map_left_iff, List.forall₂_same]
    intro n _
    exact describes_scoredRow request.nodup_metrics_policies _ t n

/-! ### Overloads -/

/-- A class with two methods of one name, cut between them. -/
def overloads (between : String) : Tree :=
  Java.parse ("class A \x7b void f() \x7b\x7d" ++ between ++
    "void f(int x) \x7b if (x > 0) \x7b\x7d \x7d \x7d")

/-- Two policies, with a row for every method. -/
def everyMethod : ScoreRequest := ⟨[.cognitive, .cyclomatic], true⟩

def noPrograms : Conditions := ⟨.default, "/", fun _ => .error ""⟩

def anyFile : Files.InputFile := ⟨"/A.java", ["A.java"], .ok []⟩

def rowsOfTree (t : Tree) : List MethodRow :=
  (FileScores.ofTree everyMethod noPrograms anyFile t).methods

/-- Overloads on two lines have a row each. -/
theorem rows_correspond_twoLines :
    let t := overloads "\n"
    everyMethod.byMethod = true ∧ everyMethod.policies ≠ [] ∧
      Correspond .iterative everyMethod.policies t (rowsOfTree t) := by
  have chosen : everyMethod.policies ≠ [] := by decide
  have distinct : ((Scoring.methods (overloads "\n")).map (placeOf (overloads "\n"))).Nodup := by
    decide +kernel
  exact ⟨rfl, chosen,
    (rows_correspond_iff everyMethod noPrograms anyFile _ rfl chosen).mpr distinct⟩

/-- Overloads on one line share a row. -/
theorem overloads_oneLine_share_row :
    let t := overloads " "
    ¬ Correspond .iterative everyMethod.policies t (rowsOfTree t) := by
  rintro t ⟨ns, describes, perm⟩
  have rows : (rowsOfTree t).length = 1 := by decide +kernel
  have declarations : (Scoring.methods t).length = 2 := by decide +kernel
  rw [← perm.length_eq, ← describes.length_eq, rows] at declarations
  cases declarations

end SuiteMetrics.Analysis
