import Mathlib.Data.List.Nodup
import SuiteMetrics.Settings.Load

/-!
One item under each name.

What a source says under a name is found by looking the name up, which is all it says only if no
table has the name twice. `Item.Distinct` says so of all tables of an item. Laying items over each
other keeps it (`Item.Distinct.overlay`), and so does every way in which the readers of settings
files and of variables put tables together; so each source of settings is a table of distinct names
(`Toml.isSource_item?`, `Variable.isSource_item`).
-/

namespace SuiteMetrics.Settings

namespace Item

/-- In no table of an item does a name occur twice. -/
inductive Distinct : Item → Prop where
  | text (s : String) : Distinct (.text s)
  | list {items : List Item} : (∀ item ∈ items, Distinct item) → Distinct (.list items)
  | table {entries : Entries} : (entries.map Prod.fst).Nodup →
      (∀ entry ∈ entries, Distinct entry.2) → Distinct (.table entries)
  | scalar : Distinct .scalar
  | nothing : Distinct .nothing

/-! ### Entries -/

theorem mem_put {name : String} {item : Item} {entries : Entries} {entry : String × Item}
    (h : entry ∈ put name item entries) : entry = (name, item) ∨ entry ∈ entries := by
  induction entries with
  | nil => exact .inl (List.mem_singleton.mp h)
  | cons first rest ih =>
      obtain ⟨n, old⟩ := first
      rw [put] at h
      split at h
      case isTrue same =>
        rcases List.mem_cons.mp h with rfl | mem
        · exact .inl (by rw [same])
        · exact .inr (List.mem_cons_of_mem _ mem)
      case isFalse =>
        rcases List.mem_cons.mp h with rfl | mem
        · exact .inr List.mem_cons_self
        · exact (ih mem).imp_right (List.mem_cons_of_mem _)

theorem nodup_put {entries : Entries} (h : (entries.map Prod.fst).Nodup) (name : String)
    (item : Item) : ((put name item entries).map Prod.fst).Nodup := by
  induction entries with
  | nil => exact List.nodup_singleton name
  | cons first rest ih =>
      obtain ⟨n, old⟩ := first
      obtain ⟨fresh, distinct⟩ := List.nodup_cons.mp h
      rw [put]
      split
      case isTrue => exact h
      case isFalse other =>
        refine List.nodup_cons.mpr ⟨fun again => ?_, ih distinct⟩
        obtain ⟨entry, mem, same⟩ := List.mem_map.mp again
        rcases mem_put mem with rfl | mem
        · exact other same.symm
        · exact fresh (List.mem_map.mpr ⟨entry, mem, same⟩)

theorem Distinct.nodup {entries : Entries} (h : Distinct (.table entries)) :
    (entries.map Prod.fst).Nodup := by
  cases h
  assumption

theorem Distinct.each {entries : Entries} (h : Distinct (.table entries)) :
    ∀ entry ∈ entries, entry.2.Distinct := by
  cases h
  assumption

theorem distinct_empty : Distinct (.table []) := .table .nil fun _ mem => absurd mem List.not_mem_nil

theorem Distinct.put {entries : Entries} (h : Distinct (.table entries)) (name : String)
    {item : Item} (k : item.Distinct) : Distinct (.table (put name item entries)) := by
  refine .table (nodup_put h.nodup name item) fun entry mem => ?_
  rcases mem_put mem with rfl | mem
  · exact k
  · exact h.each entry mem

theorem mem_of_lookup {name : String} {item : Item} {entries : Entries}
    (h : entries.lookup name = some item) : (name, item) ∈ entries := by
  induction entries with
  | nil => simp at h
  | cons first rest ih =>
      obtain ⟨n, old⟩ := first
      rw [List.lookup_cons] at h
      split at h
      case h_1 same =>
        obtain rfl := Option.some.inj h
        rw [eq_of_beq same]
        exact List.mem_cons_self
      case h_2 => exact List.mem_cons_of_mem _ (ih h)

theorem Distinct.lookup {name : String} {item : Item} {entries : Entries}
    (h : Distinct (.table entries)) (found : entries.lookup name = some item) : item.Distinct :=
  h.each _ (mem_of_lookup found)

theorem Distinct.getD_lookup {entries : Entries} (h : Distinct (.table entries)) (name : String) :
    ((entries.lookup name).getD .nothing).Distinct := by
  cases found : entries.lookup name with
  | none => exact .nothing
  | some item => exact h.lookup found

/-! ### Items over each other -/

/-- The entries of a table, none of anything else. -/
def entries : Item → Entries
  | .table entries => entries
  | _ => []

theorem overlay_table (low : Item) (entries : Entries) :
    overlay low (.table entries) = .table (overlayAll low.entries entries) := by
  cases low <;> rfl

theorem Distinct.table_entries {low : Item} (h : low.Distinct) :
    Distinct (.table low.entries) := by
  cases h with
  | table nodup each => exact .table nodup each
  | _ => exact distinct_empty

mutual

theorem Distinct.overlay {low : Item} (h : low.Distinct) :
    ∀ {item : Item}, item.Distinct → (overlay low item).Distinct
  | .table entries, k => by
      rw [overlay_table]
      exact h.table_entries.overlayAll entries k.each
  | .text s, _ => .text s
  | .list _, k => k
  | .scalar, _ => .scalar
  | .nothing, _ => .nothing

theorem Distinct.overlayAll {below : Entries} (h : Distinct (.table below)) :
    ∀ entries : Entries, (∀ entry ∈ entries, entry.2.Distinct) →
      Distinct (.table (overlayAll below entries))
  | [], _ => h
  | (name, item) :: rest, k => by
      obtain ⟨first, others⟩ := List.forall_mem_cons.mp k
      rw [Item.overlayAll]
      exact (h.put name ((h.getD_lookup name).overlay first)).overlayAll rest others

end

/-- An item as a source has it: a table in which no name occurs twice, nor in any table below. -/
def IsSource (item : Item) : Prop := (∃ entries, item = .table entries) ∧ item.Distinct

theorem isSource_empty : IsSource (.table []) := ⟨⟨[], rfl⟩, distinct_empty⟩

theorem IsSource.overlay {low item : Item} (h : low.IsSource) (k : item.IsSource) :
    (overlay low item).IsSource := by
  refine ⟨?_, h.2.overlay k.2⟩
  obtain ⟨⟨below, rfl⟩, -⟩ := h
  obtain ⟨⟨entries, rfl⟩, -⟩ := k
  exact ⟨_, rfl⟩

theorem isSource_stack {items : List Item} (h : ∀ item ∈ items, item.IsSource) :
    (stack items).IsSource := by
  have kept : ∀ low : Item, low.IsSource → (items.foldl Item.overlay low).IsSource := by
    induction items with
    | nil => exact fun _ low => low
    | cons item rest ih =>
        obtain ⟨first, others⟩ := List.forall_mem_cons.mp h
        exact fun _ low => ih others _ (low.overlay first)
  exact kept _ isSource_empty

theorem Distinct.nest {item : Item} (h : item.Distinct) (path : List String) :
    (nest item path).Distinct := by
  induction path with
  | nil => exact h
  | cons name path ih =>
      exact .table (List.nodup_singleton name) (List.forall_mem_singleton.mpr ih)

end Item

/-! ### Variables -/

namespace Variable

/-- Whatever is read of the value of a variable has distinct names. -/
structure ReadsDistinct (fuel : Nat) : Prop where
  value {s r item} : readValue fuel s = some (item, r) → item.Distinct
  items {s r items} : readItems fuel s = some (items, r) → ∀ item ∈ items, item.Distinct
  entries {known s r entries} : Item.Distinct (.table known) →
    readEntries fuel known s = some (entries, r) → Item.Distinct (.table entries)

theorem distinct_plain (s : List Char) : (plain s).Distinct := by
  unfold plain
  split
  · exact .scalar
  · exact .text _

theorem ReadsDistinct.value_succ {fuel : Nat} (h : ReadsDistinct fuel) {s r : List Char}
    {item : Item} (found : readValue (fuel + 1) s = some (item, r)) : item.Distinct := by
  rw [readValue] at found
  simp only [Option.bind_eq_bind, Option.pure_def] at found
  split at found <;>
    simp only [Option.bind_some, Option.bind_none, Option.bind_eq_some_iff,
      Option.map_eq_some_iff, Option.some.injEq, Prod.mk.injEq, Prod.exists, reduceCtorEq]
      at found
  case h_1 => exact found.1 ▸ .scalar
  case h_2 => exact found.1 ▸ .scalar
  case h_3 =>
    obtain ⟨_, _, ⟨entries, _, inside, rfl, -⟩, rfl, -⟩ := found
    exact h.entries Item.distinct_empty inside
  case h_4 =>
    obtain ⟨_, _, ⟨items, _, inside, rfl, -⟩, rfl, -⟩ := found
    exact .list (h.items inside)
  case h_5 =>
    obtain ⟨_, _, ⟨text, _, -, rfl, -⟩, rfl, -⟩ := found
    exact .text text
  case h_6 => exact found.1 ▸ .text _
  case h_8 => exact found.1 ▸ distinct_plain _

theorem ReadsDistinct.items_succ {fuel : Nat} (h : ReadsDistinct fuel) {s r : List Char}
    {items : List Item} (found : readItems (fuel + 1) s = some (items, r)) :
    ∀ item ∈ items, item.Distinct := by
  unfold readItems at found
  dsimp only at found
  split at found
  case h_1 =>
    obtain ⟨rfl, -⟩ := Prod.mk.inj (Option.some.inj found)
    exact fun _ mem => absurd mem List.not_mem_nil
  case h_2 =>
    obtain ⟨⟨item, rest⟩, first, found⟩ := Option.bind_eq_some_iff.mp found
    dsimp only at found
    split at found
    case h_1 =>
      obtain ⟨rfl, -⟩ := Prod.mk.inj (Option.some.inj found)
      exact List.forall_mem_singleton.mpr (h.value first)
    case h_2 =>
      obtain ⟨⟨others, rest⟩, inside, found⟩ := Option.bind_eq_some_iff.mp found
      obtain ⟨rfl, -⟩ := Prod.mk.inj (Option.some.inj found)
      exact List.forall_mem_cons.mpr ⟨h.value first, h.items inside⟩
    case h_3 => cases found

theorem ReadsDistinct.entries_succ {fuel : Nat} (h : ReadsDistinct fuel)
    {known entries : Item.Entries} {s r : List Char} (distinct : Item.Distinct (.table known))
    (found : readEntries (fuel + 1) known s = some (entries, r)) :
    Item.Distinct (.table entries) := by
  unfold readEntries at found
  dsimp only at found
  split at found
  case h_1 =>
    obtain ⟨rfl, -⟩ := Prod.mk.inj (Option.some.inj found)
    exact distinct
  case h_2 =>
    obtain ⟨⟨name, rest⟩, -, found⟩ := Option.bind_eq_some_iff.mp found
    dsimp only at found
    split at found
    case h_1 =>
      obtain ⟨⟨item, rest⟩, inside, found⟩ := Option.bind_eq_some_iff.mp found
      have longer := distinct.put name (h.value inside)
      dsimp only at found
      split at found
      case h_1 =>
        obtain ⟨rfl, -⟩ := Prod.mk.inj (Option.some.inj found)
        exact longer
      case h_2 => exact h.entries longer found
      case h_3 => cases found
    case h_2 => cases found

theorem ReadsDistinct.next {fuel : Nat} (h : ReadsDistinct fuel) : ReadsDistinct (fuel + 1) :=
  ⟨h.value_succ, h.items_succ, h.entries_succ⟩

theorem readsDistinct : ∀ fuel : Nat, ReadsDistinct fuel
  | 0 => ⟨by simp [readValue], by simp [readItems], by simp [readEntries]⟩
  | fuel + 1 => (readsDistinct fuel).next

theorem distinct_value (s : String) : (value s).Distinct := by
  unfold value
  split
  case h_1 found => exact (readsDistinct _).value found
  case h_2 => exact .text s

theorem splitAt_ne_nil (separator : Char) (s : List Char) : Text.splitAt separator s ≠ [] := by
  have worker : ∀ s current, Text.splitAt.go separator current s ≠ [] := by
    intro s
    induction s with
    | nil => simp [Text.splitAt.go]
    | cons c r ih =>
        intro current
        rw [Text.splitAt.go]
        split
        · exact List.cons_ne_nil _ _
        · exact ih _
  exact worker s []

/-- The name of a variable that sets something spells at least one name. -/
theorem path?_ne_nil {name : String} {path : List String} (h : path? name = some path) :
    path ≠ [] := by
  unfold path? at h
  dsimp only at h
  split at h
  · split at h
    · cases h
    · rw [← Option.some.inj h]
      exact fun empty => splitAt_ne_nil _ _ (List.map_eq_nil_iff.mp empty)
  · cases h

/-- What single variables set, each by itself. -/
def items (environment : List (String × String)) : List Item :=
  environment.filterMap fun (name, text) => (path? name).map (Item.nest (value text))

theorem isSource_of_mem_items {environment : List (String × String)} :
    ∀ item ∈ items environment, item.IsSource := by
  intro item mem
  obtain ⟨⟨name, text⟩, -, set⟩ := List.mem_filterMap.mp mem
  obtain ⟨path, spelled, rfl⟩ := Option.map_eq_some_iff.mp set
  refine ⟨?_, (distinct_value text).nest path⟩
  cases path with
  | nil => exact absurd rfl (path?_ne_nil spelled)
  | cons name path => exact ⟨_, rfl⟩

/-- The variables of an environment together are a source. -/
theorem isSource_item (environment : List (String × String)) : (item environment).IsSource :=
  Item.isSource_stack isSource_of_mem_items

end Variable

/-! ### Settings files -/

namespace Toml

/-- In no table that nodes stand for does a name occur twice. -/
def DistinctNodes (nodes : Nodes) : Prop := Item.Distinct (.table (itemsOf nodes))

theorem distinctNodes_nil : DistinctNodes [] := Item.distinct_empty

theorem itemsOf_put (name : String) (node : Node) (nodes : Nodes) :
    itemsOf (put name node nodes) = Item.put name node.item (itemsOf nodes) := by
  induction nodes with
  | nil => rfl
  | cons first rest ih =>
      obtain ⟨n, old⟩ := first
      rw [put, itemsOf, Item.put]
      split
      · rfl
      · rw [itemsOf, ih]

theorem lookup_itemsOf (name : String) (nodes : Nodes) :
    (itemsOf nodes).lookup name = (nodes.lookup name).map Node.item := by
  induction nodes with
  | nil => rfl
  | cons first rest ih =>
      obtain ⟨n, node⟩ := first
      rw [itemsOf, List.lookup_cons, List.lookup_cons]
      split
      · rfl
      · exact ih

theorem tablesOf_eq_map (others : List Nodes) :
    tablesOf others = others.map fun nodes => .table (itemsOf nodes) := by
  induction others with
  | nil => rfl
  | cons nodes rest ih => rw [tablesOf, ih, List.map_cons]

theorem distinct_tables_iff {last : Nodes} {others : List Nodes} :
    (Node.tables last others).item.Distinct ↔
      DistinctNodes last ∧ ∀ nodes ∈ others, DistinctNodes nodes := by
  rw [Node.item, tablesOf_eq_map]
  constructor
  · intro h
    cases h with
    | list each =>
        refine ⟨each _ (by simp), fun nodes mem => each _ ?_⟩
        exact List.mem_append_left _ (List.mem_reverse.mpr (List.mem_map_of_mem mem))
  · rintro ⟨first, rest⟩
    refine .list fun item mem => ?_
    rcases List.mem_append.mp mem with mem | mem
    · obtain ⟨nodes, member, rfl⟩ := List.mem_map.mp (List.mem_reverse.mp mem)
      exact rest nodes member
    · rw [List.mem_singleton.mp mem]
      exact first

theorem DistinctNodes.put {nodes : Nodes} (h : DistinctNodes nodes) (name : String) {node : Node}
    (k : node.item.Distinct) : DistinctNodes (put name node nodes) := by
  rw [DistinctNodes, itemsOf_put]
  exact Item.Distinct.put h name k

theorem DistinctNodes.lookup {nodes : Nodes} (h : DistinctNodes nodes) {name : String} {node : Node}
    (found : nodes.lookup name = some node) : node.item.Distinct :=
  Item.Distinct.lookup h (by rw [lookup_itemsOf, found]; rfl)

/-- A change keeps names distinct. -/
def Keeps (change : Origin → Nodes → Option Nodes) : Prop :=
  ∀ origin nodes after, change origin nodes = some after → DistinctNodes nodes → DistinctNodes after

theorem keeps_descend (made : Origin) {change : Origin → Nodes → Option Nodes}
    (kept : Keeps change) (path : List String) : Keeps (descend made change path) := by
  induction path with
  | nil => exact kept
  | cons name path ih =>
      intro origin nodes after done distinct
      rw [descend] at done
      split at done
      case h_1 =>
        obtain ⟨below, inside, rfl⟩ := Option.map_eq_some_iff.mp done
        exact distinct.put name (ih _ _ _ inside distinctNodes_nil)
      case h_2 => cases done
      case h_3 last others found =>
        obtain ⟨below, inside, rfl⟩ := Option.map_eq_some_iff.mp done
        obtain ⟨first, rest⟩ := distinct_tables_iff.mp (distinct.lookup found)
        exact distinct.put name (distinct_tables_iff.mpr ⟨ih _ _ _ inside first, rest⟩)
      case h_4 found =>
        split at done
        · cases done
        · obtain ⟨below, inside, rfl⟩ := Option.map_eq_some_iff.mp done
          exact distinct.put name (ih _ _ _ inside (distinct.lookup found))

theorem keeps_setNew (isDotted : Bool) (name : String) {item : Item} (h : item.Distinct) :
    Keeps (setNew isDotted name item) := by
  intro origin nodes after done distinct
  unfold setNew at done
  split at done
  · cases done
  · split at done
    · cases done
    · obtain rfl := Option.some.inj done
      exact distinct.put name h

theorem keeps_set (path : List String) {item : Item} (h : item.Distinct) :
    Keeps fun _ nodes => set path item nodes := by
  intro origin nodes after done distinct
  simp only [set] at done
  split at done
  · cases done
  · exact keeps_descend .dotted (keeps_setNew _ _ h) _ _ _ _ done distinct

theorem keeps_openTable (name : String) : Keeps (openTable name) := by
  intro origin nodes after done distinct
  unfold openTable at done
  split at done
  case h_1 =>
    obtain rfl := Option.some.inj done
    exact distinct.put name distinctNodes_nil
  case h_2 found =>
    obtain rfl := Option.some.inj done
    have below := distinct.lookup found
    refine distinct.put name ?_
    exact below
  case h_3 => cases done

theorem keeps_openNext (name : String) : Keeps (openNext name) := by
  intro origin nodes after done distinct
  unfold openNext at done
  split at done
  case h_1 =>
    obtain rfl := Option.some.inj done
    exact distinct.put name (distinct_tables_iff.mpr ⟨distinctNodes_nil, by simp⟩)
  case h_2 found =>
    obtain rfl := Option.some.inj done
    obtain ⟨first, rest⟩ := distinct_tables_iff.mp (distinct.lookup found)
    refine distinct.put name (distinct_tables_iff.mpr ⟨distinctNodes_nil, ?_⟩)
    exact List.forall_mem_cons.mpr ⟨first, rest⟩
  case h_3 => cases done

/-- Whatever is read of the value of a setting has distinct names. -/
structure ReadsDistinct (fuel : Nat) : Prop where
  value {depth s r item} : readValue fuel depth s = some (item, r) → item.Distinct
  items {depth s r items} : readItems fuel depth s = some (items, r) →
    ∀ item ∈ items, item.Distinct
  pairs {depth known s r nodes} : DistinctNodes known →
    readPairs fuel depth known s = some (nodes, r) → DistinctNodes nodes

theorem distinct_readWord {s r : List Char} {item : Item} (h : readWord s = some (item, r)) :
    item.Distinct := by
  unfold readWord at h
  dsimp only at h
  split at h
  · exact (Prod.mk.inj (Option.some.inj h)).1 ▸ .scalar
  · split at h
    · obtain ⟨rfl, -⟩ := Prod.mk.inj (Option.some.inj h)
      exact .table (List.nodup_singleton _) (List.forall_mem_singleton.mpr (.text _))
    · cases h

theorem ReadsDistinct.value_succ {fuel depth : Nat} (h : ReadsDistinct fuel) {s r : List Char}
    {item : Item} (found : readValue (fuel + 1) depth s = some (item, r)) : item.Distinct := by
  unfold readValue at found
  dsimp only at found
  split at found
  case h_1 =>
    obtain ⟨_, -, found⟩ := Option.map_eq_some_iff.mp found
    exact (Prod.mk.inj found).1 ▸ .text _
  case h_2 =>
    obtain ⟨_, -, found⟩ := Option.map_eq_some_iff.mp found
    exact (Prod.mk.inj found).1 ▸ .text _
  case h_3 =>
    split at found
    · cases found
    · obtain ⟨_, inside, found⟩ := Option.map_eq_some_iff.mp found
      exact (Prod.mk.inj found).1 ▸ .list (h.items inside)
  case h_4 =>
    split at found
    · cases found
    · split at found
      · exact (Prod.mk.inj (Option.some.inj found)).1 ▸ Item.distinct_empty
      · obtain ⟨_, inside, found⟩ := Option.map_eq_some_iff.mp found
        exact (Prod.mk.inj found).1 ▸ h.pairs distinctNodes_nil inside
  case h_5 => exact distinct_readWord found

theorem ReadsDistinct.items_succ {fuel depth : Nat} (h : ReadsDistinct fuel) {s r : List Char}
    {items : List Item} (found : readItems (fuel + 1) depth s = some (items, r)) :
    ∀ item ∈ items, item.Distinct := by
  unfold readItems at found
  obtain ⟨s', -, found⟩ := Option.bind_eq_some_iff.mp found
  dsimp only at found
  split at found
  case h_1 =>
    obtain ⟨rfl, -⟩ := Prod.mk.inj (Option.some.inj found)
    exact fun _ mem => absurd mem List.not_mem_nil
  case h_2 =>
    obtain ⟨⟨item, rest⟩, first, found⟩ := Option.bind_eq_some_iff.mp found
    obtain ⟨s'', -, found⟩ := Option.bind_eq_some_iff.mp found
    split at found
    case h_1 =>
      obtain ⟨rfl, -⟩ := Prod.mk.inj (Option.some.inj found)
      exact List.forall_mem_singleton.mpr (h.value first)
    case h_2 =>
      obtain ⟨⟨others, rest⟩, inside, found⟩ := Option.bind_eq_some_iff.mp found
      obtain ⟨rfl, -⟩ := Prod.mk.inj (Option.some.inj found)
      exact List.forall_mem_cons.mpr ⟨h.value first, h.items inside⟩
    case h_3 => cases found

theorem ReadsDistinct.pairs_succ {fuel depth : Nat} (h : ReadsDistinct fuel) {known nodes : Nodes}
    {s r : List Char} (distinct : DistinctNodes known)
    (found : readPairs (fuel + 1) depth known s = some (nodes, r)) : DistinctNodes nodes := by
  unfold readPairs at found
  obtain ⟨⟨path, rest⟩, -, found⟩ := Option.bind_eq_some_iff.mp found
  dsimp only at found
  split at found
  case h_1 =>
    obtain ⟨⟨item, rest⟩, inside, found⟩ := Option.bind_eq_some_iff.mp found
    obtain ⟨more, put, found⟩ := Option.bind_eq_some_iff.mp found
    have longer := keeps_set path (h.value inside) .header known more put distinct
    dsimp only at found
    split at found
    case h_1 =>
      obtain ⟨rfl, -⟩ := Prod.mk.inj (Option.some.inj found)
      exact longer
    case h_2 => exact h.pairs longer found
    case h_3 => cases found
  case h_2 => cases found

theorem ReadsDistinct.next {fuel : Nat} (h : ReadsDistinct fuel) : ReadsDistinct (fuel + 1) :=
  ⟨h.value_succ, h.items_succ, h.pairs_succ⟩

theorem readsDistinct : ∀ fuel : Nat, ReadsDistinct fuel
  | 0 => ⟨by simp [readValue], by simp [readItems], by simp [readPairs]⟩
  | fuel + 1 => (readsDistinct fuel).next

/-- A statement that sets something sets an item of distinct names. -/
def Statement.Distinct : Statement → Prop
  | .setting _ item => item.Distinct
  | .header _ => True
  | .nextHeader _ => True

theorem distinct_readStatement {s r : List Char} {statement : Statement}
    (h : readStatement s = some (statement, r)) : statement.Distinct := by
  unfold readStatement at h
  split at h
  case h_1 =>
    obtain ⟨⟨path, rest⟩, -, h⟩ := Option.bind_eq_some_iff.mp h
    dsimp only at h
    split at h
    · exact (Prod.mk.inj (Option.some.inj h)).1 ▸ trivial
    · cases h
  case h_2 =>
    obtain ⟨⟨path, rest⟩, -, h⟩ := Option.bind_eq_some_iff.mp h
    dsimp only at h
    split at h
    · exact (Prod.mk.inj (Option.some.inj h)).1 ▸ trivial
    · cases h
  case h_3 =>
    obtain ⟨⟨path, rest⟩, -, h⟩ := Option.bind_eq_some_iff.mp h
    dsimp only at h
    split at h
    · obtain ⟨⟨item, rest⟩, inside, h⟩ := Option.bind_eq_some_iff.mp h
      exact (Prod.mk.inj (Option.some.inj h)).1 ▸ (readsDistinct _).value inside
    · cases h

theorem distinct_readStatements {fuel : Nat} {s : List Char} {statements : List Statement}
    (h : readStatements fuel s = some statements) : ∀ statement ∈ statements, statement.Distinct := by
  induction fuel generalizing s statements with
  | zero => cases h
  | succ fuel ih =>
      rw [readStatements] at h
      obtain ⟨s', -, h⟩ := Option.bind_eq_some_iff.mp h
      split at h
      case h_1 =>
        obtain rfl := Option.some.inj h
        exact fun _ mem => absurd mem List.not_mem_nil
      case h_2 =>
        obtain ⟨⟨statement, rest⟩, first, h⟩ := Option.bind_eq_some_iff.mp h
        obtain ⟨rest', -, h⟩ := Option.bind_eq_some_iff.mp h
        obtain ⟨others, inside, h⟩ := Option.bind_eq_some_iff.mp h
        obtain rfl := Option.some.inj h
        exact List.forall_mem_cons.mpr ⟨distinct_readStatement first, ih inside⟩

/-- A statement that is carried out keeps names distinct. -/
theorem distinct_step {b after : Building} {statement : Statement} (h : DistinctNodes b.nodes)
    (k : statement.Distinct) (done : b.step statement = some after) :
    DistinctNodes after.nodes := by
  cases statement with
  | setting path item =>
      obtain ⟨nodes, inside, rfl⟩ := Option.map_eq_some_iff.mp done
      exact keeps_descend .implied (keeps_set path k) _ _ _ _ inside h
  | header path =>
      rw [Building.step, Building.enter] at done
      split at done
      · cases done
      · obtain ⟨nodes, inside, rfl⟩ := Option.map_eq_some_iff.mp done
        exact keeps_descend .implied (keeps_openTable _) _ _ _ _ inside h
  | nextHeader path =>
      rw [Building.step, Building.enter] at done
      split at done
      · cases done
      · obtain ⟨nodes, inside, rfl⟩ := Option.map_eq_some_iff.mp done
        exact keeps_descend .implied (keeps_openNext _) _ _ _ _ inside h

theorem distinct_foldlM {statements : List Statement} {b after : Building}
    (h : DistinctNodes b.nodes) (k : ∀ statement ∈ statements, statement.Distinct)
    (done : statements.foldlM Building.step b = some after) : DistinctNodes after.nodes := by
  induction statements generalizing b with
  | nil =>
      obtain rfl := Option.some.inj done
      exact h
  | cons statement rest ih =>
      obtain ⟨first, others⟩ := List.forall_mem_cons.mp k
      rw [List.foldlM_cons] at done
      obtain ⟨b', step, done⟩ := Option.bind_eq_some_iff.mp done
      exact ih (distinct_step h first step) others done

/-- A settings file without a fault is a source. -/
theorem isSource_item? {text : String} {item : Item} (h : item? text = some item) :
    item.IsSource := by
  unfold item? at h
  obtain ⟨statements, read, h⟩ := Option.bind_eq_some_iff.mp h
  obtain ⟨built, done, h⟩ := Option.bind_eq_some_iff.mp h
  obtain rfl := Option.some.inj h
  exact ⟨⟨_, rfl⟩, distinct_foldlM distinctNodes_nil (distinct_readStatements read) done⟩

end Toml

end SuiteMetrics.Settings
