import SuiteMetrics.Files.Tree

/-!
Looking up names in trees without links.

The names that an entry of a directory can have are written between slashes and read back
(`stepsOf_absoluteText`). A place where something stands is reached from the root by its names, and
no link is on the way (`lookUp_append_of_at?`). From there on, what stands there decides alone what
is found as long as it holds no links (`map_snd_resolve_of_linkFree`), wherever in a tree it stands.
-/

namespace SuiteMetrics

/-! ### Names in a path -/

namespace Text

theorem splitAt_go_eq (separator : Char) (current s : List Char) :
    splitAt.go separator current s = List.splitOnPPrepend (· == separator) s current := by
  induction s generalizing current with
  | nil => rfl
  | cons c r ih =>
      rw [splitAt.go, List.splitOnPPrepend_cons_eq_if, ih, ih]
      simp

theorem splitAt_eq_splitOn (separator : Char) (s : List Char) :
    splitAt separator s = s.splitOn separator :=
  splitAt_go_eq separator [] s

end Text

namespace Files

/-- A name that an entry of a directory can have. -/
def IsName (name : String) : Prop :=
  name ≠ "" ∧ name ≠ "." ∧ name ≠ ".." ∧ '/' ∉ name.toList

instance (name : String) : Decidable (IsName name) := inferInstanceAs (Decidable (_ ∧ _))

theorem toList_absoluteText (parts : List String) :
    (absoluteText parts).toList = '/' :: ['/'].intercalate (parts.map String.toList) := by
  rw [absoluteText, join, String.toList_append, String.toList_intercalate]
  rfl

theorem isAbsolute_absoluteText (parts : List String) : isAbsolute (absoluteText parts) := by
  rw [isAbsolute, toList_absoluteText]
  rfl

/-- Names with slashes between them are read back. -/
theorem steps_absoluteText {parts : List String} (named : ∀ n ∈ parts, IsName n) :
    steps (absoluteText parts) = parts := by
  have front : steps (absoluteText parts) =
      (((['/'].intercalate (parts.map String.toList)).splitOn '/').filter
        fun part => !part.isEmpty).map String.ofList := by
    rw [steps, Text.splitAt_eq_splitOn, toList_absoluteText, List.splitOn_cons_eq_if_modifyHead]
    rfl
  rw [front]
  by_cases top : parts = []
  · subst top
    rfl
  · have apart : ∀ l ∈ parts.map String.toList, '/' ∉ l := by
      intro l mem
      obtain ⟨n, hn, rfl⟩ := List.mem_map.mp mem
      exact (named n hn).2.2.2
    have full : ∀ l ∈ parts.map String.toList, !l.isEmpty := by
      intro l mem
      obtain ⟨n, hn, rfl⟩ := List.mem_map.mp mem
      have nonempty : n.toList ≠ [] := fun h => (named n hn).1 (String.toList_eq_nil_iff.mp h)
      simpa using nonempty
    rw [List.splitOn_intercalate _ apart (by simpa using top), List.filter_eq_self.mpr full,
      List.map_map]
    exact (List.map_congr_left fun n _ => String.ofList_toList).trans (List.map_id parts)

/-- Names with slashes between them end with no slash. -/
theorem getLast?_intercalate {parts : List String} (named : ∀ n ∈ parts, IsName n)
    (nonempty : parts ≠ []) :
    ∃ c ≠ '/', (['/'].intercalate (parts.map String.toList)).getLast? = some c := by
  induction parts with
  | nil => exact absurd rfl nonempty
  | cons n r ih =>
      obtain ⟨⟨full, -, -, apart⟩, rest⟩ := List.forall_mem_cons.mp named
      cases r with
      | nil =>
          rw [List.map_singleton, List.intercalate_singleton]
          cases last : n.toList.getLast? with
          | none =>
              have blank := String.toList_eq_nil_iff.mp (List.getLast?_eq_none_iff.mp last)
              exact absurd blank full
          | some c =>
              refine ⟨c, ?_, rfl⟩
              rintro rfl
              exact apart (List.mem_of_getLast? last)
      | cons m r =>
          obtain ⟨c, other, last⟩ := ih rest (List.cons_ne_nil m r)
          refine ⟨c, other, ?_⟩
          rw [List.map_cons] at last
          rw [List.map_cons, List.map_cons, List.intercalate_cons_cons, List.getLast?_append, last]
          rfl

/-- A path ends with its last name. -/
theorem endsWithSlash_absoluteText {parts : List String} (named : ∀ n ∈ parts, IsName n)
    (nonempty : parts ≠ []) : endsWithSlash (absoluteText parts) = false := by
  obtain ⟨c, other, last⟩ := getLast?_intercalate named nonempty
  rw [endsWithSlash, toList_absoluteText, List.getLast?_cons, last]
  simpa using other

theorem stepsOf_absoluteText {parts : List String} (named : ∀ n ∈ parts, IsName n) :
    stepsOf (absoluteText parts) = if parts = [] then ["."] else parts := by
  rw [stepsOf, steps_absoluteText named]
  by_cases top : parts = []
  · subst top
    rfl
  · rw [endsWithSlash_absoluteText named top, if_neg top]
    exact List.append_nil parts

/-! ### Places -/

namespace Entry

theorem at?_append (p q : List String) (e : Entry) :
    e.at? (p ++ q) = (e.at? p).bind (at? q) := by
  induction p generalizing e with
  | nil => rfl
  | cons n r ih =>
      rw [List.cons_append, at?, at?]
      cases e.child? n with
      | none => rfl
      | some child => exact ih child

def isLink : Entry → Bool
  | .link _ => true
  | _ => false

theorem exists_of_at?_singleton {name : String} {d e : Entry} (h : d.at? [name] = some e) :
    ∃ entries, d = .directory entries ∧ entries.lookup name = some e := by
  obtain ⟨child, there, same⟩ := Option.bind_eq_some_iff.mp h
  cases same
  cases d with
  | directory entries => exact ⟨entries, rfl, there⟩
  | file content => cases there
  | link target => cases there

/-- Nothing stands below a link. -/
theorem isLink_of_at? {parts : List String} {d e : Entry} (noLink : e.isLink = false)
    (h : d.at? parts = some e) : d.isLink = false := by
  cases d with
  | directory entries => rfl
  | file content => rfl
  | link target =>
      cases parts with
      | nil =>
          cases h
          exact noLink
      | cons n r => cases h

mutual

/-- Whether all entries below an entry pass a test together with their names. -/
def forAll (p : String → Entry → Bool) : Entry → Bool
  | .directory entries => forAllIn p entries
  | .file _ => true
  | .link _ => true

/-- The same for the entries of a directory and those below them. -/
def forAllIn (p : String → Entry → Bool) : List (String × Entry) → Bool
  | [] => true
  | (name, e) :: rest => p name e && e.forAll p && forAllIn p rest

end

theorem forAll_of_lookup {p : String → Entry → Bool} {entries : List (String × Entry)}
    {name : String} {e : Entry} (all : forAllIn p entries) (there : entries.lookup name = some e) :
    p name e ∧ e.forAll p := by
  induction entries with
  | nil => cases there
  | cons first rest ih =>
      obtain ⟨other, old⟩ := first
      rw [forAllIn, Bool.and_eq_true, Bool.and_eq_true] at all
      rw [List.lookup_cons] at there
      split at there
      case h_1 same =>
          cases there
          exact beq_iff_eq.mp same ▸ all.1
      case h_2 => exact ih all.2 there

/-- Whether all names below an entry are names that entries can have. -/
def isWellNamed : Entry → Bool := forAll fun name _ => decide (IsName name)

/-- Whether there are no links below an entry. -/
def isLinkFree : Entry → Bool := forAll fun _ e => !e.isLink

/-- What is found at some names below an entry that holds no links. -/
def seek : List String → Entry → Except IoFault Entry
  | [], e => .ok e
  | name :: rest, .directory entries =>
    match entries.lookup name with
    | some e => e.seek rest
    | none => .error .notFound
  | _ :: _, _ => .error .notDirectory

end Entry

/-! ### Looking up -/

section LookUp

variable {tree : Entry} {place rest : List String} {entries : List (String × Entry)} {name : String}

theorem lookUp_cons_dot (links : Nat) (here : tree.at? place = some (.directory entries)) :
    lookUp tree links place ("." :: rest) = lookUp tree links place rest := by
  rw [lookUp, here]
  simp only [if_true]

theorem lookUp_cons_of_some {e : Entry} (links : Nat)
    (here : tree.at? place = some (.directory entries)) (named : IsName name)
    (there : entries.lookup name = some e) (noLink : e.isLink = false) :
    lookUp tree links place (name :: rest) = lookUp tree links (place ++ [name]) rest := by
  obtain ⟨-, notHere, notUp, -⟩ := named
  rw [lookUp, here]
  simp only [notHere, notUp, if_false, there]
  cases e with
  | link target => cases noLink
  | file content => rfl
  | directory entries => rfl

theorem lookUp_cons_of_none (links : Nat) (here : tree.at? place = some (.directory entries))
    (named : IsName name) (absent : entries.lookup name = none) :
    lookUp tree links place (name :: rest) =
      if rest.all (· == ".") then .ok (.missing place name) else .error .notFound := by
  obtain ⟨-, notHere, notUp, -⟩ := named
  rw [lookUp, here]
  simp only [notHere, notUp, if_false, absent]

/-- Where something stands that is no link, a look-up arrives by the names on the way. -/
theorem lookUp_append_of_at? {e : Entry} (links : Nat) (noLink : e.isLink = false) :
    ∀ {parts place : List String}, (∀ n ∈ parts, IsName n) →
      tree.at? (place ++ parts) = some e →
        lookUp tree links place (parts ++ rest) = lookUp tree links (place ++ parts) rest
  | [], place, _, _ => by rw [List.append_nil, List.nil_append]
  | n :: r, place, named, there => by
      obtain ⟨first, others⟩ := List.forall_mem_cons.mp named
      have whole : tree.at? (place ++ [n] ++ r) = some e := by
        rwa [List.append_assoc, List.singleton_append]
      obtain ⟨next, onWay, further⟩ :=
        Option.bind_eq_some_iff.mp ((Entry.at?_append (place ++ [n]) r tree).symm.trans whole)
      obtain ⟨directory, here, child⟩ :=
        Option.bind_eq_some_iff.mp ((Entry.at?_append place [n] tree).symm.trans onWay)
      obtain ⟨entries, rfl, there⟩ := Entry.exists_of_at?_singleton child
      have followed : next.isLink = false := Entry.isLink_of_at? noLink further
      rw [List.cons_append, lookUp_cons_of_some links here first there followed,
        lookUp_append_of_at? links noLink others whole, List.append_assoc, List.singleton_append]

end LookUp

/-- The entry that a look-up leads to. -/
def reached : Except IoFault Found → Except IoFault Entry
  | .ok (.entry _ e) => .ok e
  | .ok (.missing _ _) => .error .notFound
  | .error fault => .error fault

theorem reached_lookUp {tree : Entry} (links : Nat) : ∀ {parts place : List String} {e : Entry},
    (∀ n ∈ parts, IsName n) → e.isLinkFree → tree.at? place = some e →
      reached (lookUp tree links place parts) = e.seek parts
  | [], place, e, _, _, there => by
      rw [lookUp, there]
      rfl
  | n :: r, place, e, named, free, there => by
      obtain ⟨first, others⟩ := List.forall_mem_cons.mp named
      cases e with
      | file content =>
          rw [lookUp, there]
          rfl
      | link target =>
          rw [lookUp, there]
          rfl
      | directory entries =>
          rw [Entry.seek]
          cases found : entries.lookup n with
          | none =>
              rw [lookUp_cons_of_none links there first found]
              split
              · rfl
              · rfl
          | some next =>
              obtain ⟨notLink, free⟩ := Entry.forAll_of_lookup free found
              have below : tree.at? (place ++ [n]) = some next := by
                rw [Entry.at?_append, there, Option.bind_some, Entry.at?, Entry.child?, found]
                rfl
              rw [lookUp_cons_of_some links there first found (Bool.not_eq_true' _ ▸ notLink)]
              exact reached_lookUp links others free below

namespace World

variable {w : World}

theorem map_snd_resolve (path : String) :
    (w.resolve path).map Prod.snd = reached (w.find path) := by
  rw [resolve]
  split
  case h_1 found => rw [found]; rfl
  case h_2 found => rw [found]; rfl
  case h_3 found => rw [found]; rfl

theorem read_eq (path : String) :
    w.read path =
      match (w.resolve path).map Prod.snd with
      | .ok (.file content) => .ok content
      | .ok (.directory _) => .error .isDirectory
      | .ok (.link _) => .error .linkLoop
      | .error fault => .error fault := by
  rw [read]
  rcases w.resolve path with fault | ⟨place, e⟩
  · rfl
  · cases e <;> rfl

theorem isDirectory_eq (path : String) :
    w.isDirectory path =
      match (w.resolve path).map Prod.snd with
      | .ok e => e.isDirectory
      | .error _ => false := by
  rw [isDirectory]
  cases w.resolve path <;> rfl

theorem pathExists_eq (path : String) :
    w.pathExists path = ((w.resolve path).map Prod.snd).isOk := by
  rw [pathExists]
  cases w.resolve path <;> rfl

/-- A path of names is looked up from any directory on its way. -/
theorem find_absoluteText {root below : List String} {entries : List (String × Entry)}
    (placed : w.tree.at? root = some (.directory entries)) (named : ∀ n ∈ root ++ below, IsName n) :
    w.find (absoluteText (root ++ below)) = lookUp w.tree linkLimit root below := by
  have full : (absoluteText (root ++ below)).isEmpty = false := by
    refine Bool.eq_false_iff.mpr fun empty => ?_
    have chars := toList_absoluteText (root ++ below)
    rw [String.isEmpty_iff.mp empty] at chars
    cases chars
  rw [find, full, isAbsolute_absoluteText, stepsOf_absoluteText named]
  simp only [Bool.false_eq_true, if_false, if_true]
  split
  case isTrue top =>
      obtain ⟨rfl, rfl⟩ := List.append_eq_nil_iff.mp top
      exact lookUp_cons_dot linkLimit placed
  case isFalse =>
      have noLink : (Entry.directory entries).isLink = false := rfl
      have arrived : w.tree.at? ([] ++ root) = some (.directory entries) := placed
      rw [lookUp_append_of_at? linkLimit noLink (List.forall_mem_append.mp named).1 arrived,
        List.nil_append]

/-- The path of names to a directory leads there. -/
theorem resolve_absoluteText {place : List String} {entries : List (String × Entry)}
    (placed : w.tree.at? place = some (.directory entries)) (named : ∀ n ∈ place, IsName n) :
    w.resolve (absoluteText place) = .ok (place, .directory entries) := by
  have here : w.find (absoluteText (place ++ [])) = lookUp w.tree linkLimit place [] :=
    find_absoluteText placed (by rwa [List.append_nil])
  rw [List.append_nil, lookUp, placed] at here
  rw [resolve, here]

/-- What a path below a directory without links leads to depends on the directory alone. -/
theorem map_snd_resolve_of_linkFree {root below : List String} {entries : List (String × Entry)}
    (placed : w.tree.at? root = some (.directory entries))
    (free : (Entry.directory entries).isLinkFree) (named : ∀ n ∈ root ++ below, IsName n) :
    (w.resolve (absoluteText (root ++ below))).map Prod.snd =
      (Entry.directory entries).seek below := by
  rw [map_snd_resolve, find_absoluteText placed named]
  exact reached_lookUp linkLimit (List.forall_mem_append.mp named).2 free placed

/-- In a tree without links a path of names leads to what stands at the names. -/
theorem map_snd_resolve_of_tree {entries : List (String × Entry)}
    (tree : w.tree = .directory entries) (free : w.tree.isLinkFree) {place : List String}
    (named : ∀ n ∈ place, IsName n) :
    (w.resolve (absoluteText place)).map Prod.snd = w.tree.seek place := by
  have top : w.tree.at? [] = some (.directory entries) := congrArg some tree
  have below : ∀ n ∈ [] ++ place, IsName n := by rwa [List.nil_append]
  rw [tree] at free
  have sought := map_snd_resolve_of_linkFree top free below
  rwa [List.nil_append, ← tree] at sought

end World

end Files

end SuiteMetrics
