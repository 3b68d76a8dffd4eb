import Mathlib
import SuiteMetrics.Proofs.DistinctNames
import SuiteMetrics.Proofs.PlainTrees

/-!
Settings in layers.

Sources are laid over each other before any setting is read. This says what comes of it setting by
setting. A setting is a `Leaf`: the section and the name under which sources say it, and how it is
read. Among the forms in which the sources have its section, the highest is in force, and those
below it as long as all are tables (`Item.inForce`); the highest of these that says the setting
decides it (`Leaf.decided?`). Where all forms are tables, that is the highest source that says the
setting (`Leaf.decided?_eq_of_plain`). A form that is no table hides all forms below it, and a table
above it drops it: a list says the settings of a section by position, and no item of it has a name
to be laid under.

Settings load exactly if they are those of their sources (`Layered`), and the sources are two files
and the variables, or one file and the variables (`settings_are_layered`).
-/

namespace SuiteMetrics.Settings

open Files (World)

namespace Item

/-- What a table says under a name. -/
def field? (name : String) (item : Item) : Option Item := item.entries.lookup name

/-- What a section says of a setting: under its name in a table, at its position in a list. -/
def member? (name : String) (position : Nat) : Item → Option Item
  | .table entries => entries.lookup name
  | .list items => items[position]?
  | _ => none

/-- Whether an item is a table. -/
def isTable : Item → Bool
  | .table _ => true
  | _ => false

/-- Whether an item can be read as a section. -/
def isSection : Item → Bool
  | .table _ => true
  | .list _ => true
  | _ => false

/-- The forms that count, of forms from the highest to the lowest: the highest one, and those below
it as long as all are tables. -/
def inForce : List Item → List Item
  | [] => []
  | top :: lower => top :: if top.isTable then lower.takeWhile isTable else []

/-- Items laid over each other, the highest first. -/
def pile : List Item → Option Item
  | [] => none
  | top :: lower => some (overlay ((pile lower).getD .nothing) top)

/-! ### One name in tables over each other -/

theorem isSection_overlay (low item : Item) : (overlay low item).isSection = item.isSection := by
  cases item with
  | table entries => rw [overlay_table]; rfl
  | _ => rfl

theorem lookup_cons_eq_ite (name n : String) (item : Item) (rest : Entries) :
    List.lookup name ((n, item) :: rest) = if name = n then some item else rest.lookup name := by
  by_cases same : name = n
  · simp [same]
  · rw [List.lookup_cons, beq_eq_false_iff_ne.mpr same, if_neg same]

theorem lookup_put (name other : String) (item : Item) (entries : Entries) :
    (put name item entries).lookup other =
      if other = name then some item else entries.lookup other := by
  induction entries with
  | nil => exact lookup_cons_eq_ite other name item []
  | cons first rest ih =>
      obtain ⟨n, old⟩ := first
      rw [put, lookup_cons_eq_ite]
      by_cases here : n = name
      · subst here
        rw [if_pos rfl, lookup_cons_eq_ite]
        split <;> rfl
      · rw [if_neg here, lookup_cons_eq_ite, ih]
        split
        case isTrue same => rw [if_neg (same ▸ here)]
        case isFalse => rfl

theorem lookup_eq_none_of_fresh {name : String} {entries : Entries}
    (h : name ∉ entries.map Prod.fst) : entries.lookup name = none := by
  cases found : entries.lookup name with
  | none => rfl
  | some item => exact absurd (List.mem_map_of_mem (mem_of_lookup found)) h

/-- What entries laid over others say under a name: their own item over the one below. -/
theorem lookup_overlayAll {entries : Entries} (distinct : (entries.map Prod.fst).Nodup)
    (below : Entries) (name : String) :
    (overlayAll below entries).lookup name =
      match entries.lookup name with
      | some item => some (overlay ((below.lookup name).getD .nothing) item)
      | none => below.lookup name := by
  induction entries generalizing below with
  | nil => rfl
  | cons first rest ih =>
      obtain ⟨n, item⟩ := first
      obtain ⟨fresh, distinct⟩ := List.nodup_cons.mp distinct
      rw [overlayAll, ih distinct, lookup_put, lookup_cons_eq_ite]
      by_cases same : name = n
      · subst same
        rw [lookup_eq_none_of_fresh fresh, if_pos rfl, if_pos rfl]
      · rw [if_neg same, if_neg same]

theorem field?_overlay_table (low : Item) {entries : Entries}
    (h : (Item.table entries).Distinct) (name : String) :
    (overlay low (.table entries)).field? name =
      match entries.lookup name with
      | some item => some (overlay ((low.field? name).getD .nothing) item)
      | none => low.field? name := by
  rw [overlay_table]
  exact lookup_overlayAll h.nodup low.entries name

/-- What sources together say under a name is what they say one by one, laid over each other. -/
theorem field?_stack {items : List Item} (h : ∀ item ∈ items, item.IsSource) (name : String) :
    (stack items).field? name = pile (items.reverse.filterMap (field? name)) := by
  induction items using List.reverseRecOn with
  | nil => rfl
  | append_singleton lower top ih =>
      have above : stack (lower ++ [top]) = overlay (stack lower) top := by
        rw [stack, List.foldl_append]
        rfl
      obtain ⟨⟨entries, rfl⟩, distinct⟩ := h top (by simp)
      have ih := ih fun item mem => h item (List.mem_append_left _ mem)
      rw [above, field?_overlay_table _ distinct, List.reverse_append, List.reverse_singleton,
        List.singleton_append, List.filterMap_cons, ih]
      rw [show field? name (.table entries) = entries.lookup name from rfl]
      cases entries.lookup name <;> rfl

/-! ### One setting in the forms of its section -/

section Members

variable {α : Type} {reader : Item → Option α} {forms : List Item}

/-- A reader that refuses tables reads an item the same way wherever it is laid. -/
theorem reader_overlay (refuses : ∀ entries, reader (.table entries) = none) (low item : Item) :
    reader (overlay low item) = reader item := by
  cases item with
  | table entries => rw [overlay_table, refuses, refuses]
  | _ => rfl

theorem map_field?_overlay_table (refuses : ∀ entries, reader (.table entries) = none)
    (low : Item) {entries : Entries} (h : (Item.table entries).Distinct) (name : String) :
    ((overlay low (.table entries)).field? name).map reader =
      ((entries.lookup name).map reader).or ((low.field? name).map reader) := by
  rw [field?_overlay_table low h]
  cases entries.lookup name with
  | none => rfl
  | some item => exact congrArg some (reader_overlay refuses _ item)

/-- What the first form says and then the others. -/
theorem findSome?_member?_cons (name : String) (position : Nat) (form : Item) :
    (form :: forms).findSome? (member? name position) =
      (form.member? name position).or (forms.findSome? (member? name position)) := by
  rw [List.findSome?_cons]
  cases form.member? name position <;> rfl

theorem all_isSection_pile (forms : List Item) :
    (pile forms).all isSection = forms.head?.all isSection := by
  cases forms with
  | nil => rfl
  | cons top lower => exact isSection_overlay _ top

theorem map_pile (refuses : ∀ entries, reader (.table entries) = none) (forms : List Item) :
    (pile forms).map reader = forms.head?.map reader := by
  cases forms with
  | nil => rfl
  | cons top lower => exact congrArg some (reader_overlay refuses _ top)

/-- Below a table, tables count up to the first form that is none. -/
theorem map_field?_pile (refuses : ∀ entries, reader (.table entries) = none)
    (h : ∀ form ∈ forms, form.Distinct) (name : String) (position : Nat) :
    (((pile forms).getD .nothing).field? name).map reader =
      ((forms.takeWhile isTable).findSome? (member? name position)).map reader := by
  induction forms with
  | nil => rfl
  | cons top lower ih =>
      obtain ⟨first, others⟩ := List.forall_mem_cons.mp h
      rw [pile, Option.getD_some]
      cases top with
      | table entries =>
          rw [map_field?_overlay_table refuses _ first, ih others,
            List.takeWhile_cons_of_pos rfl, findSome?_member?_cons, Option.map_or]
          rfl
      | _ => rfl

/-- The setting of a section in layers is decided by the highest form in force that says it. -/
theorem map_member?_pile (refuses : ∀ entries, reader (.table entries) = none)
    (h : ∀ form ∈ forms, form.Distinct) (name : String) (position : Nat) :
    ((pile forms).bind (member? name position)).map reader =
      ((inForce forms).findSome? (member? name position)).map reader := by
  cases forms with
  | nil => rfl
  | cons top lower =>
      obtain ⟨first, others⟩ := List.forall_mem_cons.mp h
      rw [pile, Option.bind_some, inForce, findSome?_member?_cons]
      cases top with
      | table entries =>
          have merged := map_field?_overlay_table refuses ((pile lower).getD .nothing) first name
          rw [map_field?_pile refuses others name position, ← Option.map_or, overlay_table] at merged
          rw [overlay_table]
          exact merged
      | _ => exact congrArg (Option.map reader) (Option.or_none).symm

theorem inForce_of_tables (h : ∀ form ∈ forms, form.isTable = true) : inForce forms = forms := by
  cases forms with
  | nil => rfl
  | cons top lower =>
      obtain ⟨first, others⟩ := List.forall_mem_cons.mp h
      rw [inForce, if_pos first, List.takeWhile_eq_self_iff.mpr others]

end Members

end Item

/-! ### Settings one by one -/

/-- One setting: where sources say it and how it is read. -/
structure Leaf where
  /-- The type of its values. -/
  Value : Type
  /-- The section it stands in, if it stands in one. -/
  inSection? : Option String
  name : String
  /-- Its position in a section that is a list. -/
  position : Nat
  reader : Item → Option Value
  /-- Its value in some settings. -/
  get : Settings → Value
  /-- No setting is read of a table. -/
  refuses : ∀ entries, reader (.table entries) = none

namespace Leaf

/-- The form in which a source has the section of a setting. -/
def form? (leaf : Leaf) (source : Item) : Option Item :=
  match leaf.inSection? with
  | some name => source.field? name
  | none => some source

/-- What a source says of a setting. -/
def said? (leaf : Leaf) (source : Item) : Option Item :=
  (leaf.form? source).bind (Item.member? leaf.name leaf.position)

/-- What decides a setting among sources, of which the last is the highest. -/
def decided? (leaf : Leaf) (sources : List Item) : Option Item :=
  (Item.inForce (sources.reverse.filterMap leaf.form?)).findSome?
    (Item.member? leaf.name leaf.position)

/-- The value of a setting of which something is said, or of which nothing is. -/
def value? (leaf : Leaf) (said : Option Item) : Option leaf.Value :=
  read leaf.reader (leaf.get default) said

/-- Whether sources have the section of a setting as a table or not at all. -/
def Plain (leaf : Leaf) (sources : List Item) : Prop :=
  ∀ source ∈ sources, (leaf.form? source).all Item.isTable = true

instance (leaf : Leaf) (sources : List Item) : Decidable (leaf.Plain sources) :=
  inferInstanceAs (Decidable (∀ source ∈ sources, _))

theorem form?_of_section {leaf : Leaf} {name : String} (h : leaf.inSection? = some name) :
    leaf.form? = Item.field? name := by
  funext source
  rw [form?, h]

theorem form?_of_none {leaf : Leaf} (h : leaf.inSection? = none) : leaf.form? = some := by
  funext source
  rw [form?, h]

theorem forall_mem_forms {leaf : Leaf} {sources : List Item} {P : Item → Prop}
    (h : ∀ source ∈ sources, ∀ form, leaf.form? source = some form → P form) :
    ∀ form ∈ sources.reverse.filterMap leaf.form?, P form := by
  intro form mem
  obtain ⟨source, member, found⟩ := List.mem_filterMap.mp mem
  exact h source (List.mem_reverse.mp member) form found

theorem value?_congr {leaf : Leaf} {said said' : Option Item}
    (h : said.map leaf.reader = said'.map leaf.reader) : leaf.value? said = leaf.value? said' := by
  cases said <;> cases said' <;> simp_all [value?, read]

/-- Where the section of a setting is a table in all sources, the highest source that says the
setting decides it. -/
theorem decided?_eq_of_plain {leaf : Leaf} {sources : List Item} (h : leaf.Plain sources) :
    leaf.decided? sources = sources.reverse.findSome? leaf.said? := by
  have tables : ∀ form ∈ sources.reverse.filterMap leaf.form?, form.isTable = true :=
    forall_mem_forms fun source mem form found => by
      have table := h source mem
      rwa [found] at table
  rw [decided?, Item.inForce_of_tables tables, ← List.head?_filterMap, List.filterMap_filterMap,
    List.head?_filterMap]
  rfl

theorem distinct_of_form? {leaf : Leaf} {source form : Item} (h : source.IsSource)
    (found : leaf.form? source = some form) : form.Distinct := by
  unfold form? at found
  split at found
  · exact h.2.table_entries.lookup found
  · exact Option.some.inj found ▸ h.2

/-- Sources laid over each other say a setting just as the item that decides it. -/
theorem value?_stack {leaf : Leaf} {sources : List Item}
    (h : ∀ source ∈ sources, source.IsSource) :
    leaf.value? (leaf.said? (Item.stack sources)) = leaf.value? (leaf.decided? sources) := by
  refine value?_congr ?_
  cases place : leaf.inSection? with
  | some name =>
      have distinct : ∀ form ∈ sources.reverse.filterMap leaf.form?, form.Distinct :=
        forall_mem_forms fun source mem _ found => distinct_of_form? (h source mem) found
      rw [decided?, ← Item.map_member?_pile leaf.refuses distinct, said?, form?_of_section place,
        Item.field?_stack h]
  | none =>
      -- The sources themselves are the forms, and all of them are tables.
      have said : ∀ source : Item, source.IsSource →
          leaf.said? source = source.field? leaf.name := by
        rintro source ⟨⟨entries, rfl⟩, -⟩
        rw [said?, form?_of_none place]
        rfl
      have plain : leaf.Plain sources := by
        intro source mem
        obtain ⟨⟨entries, rfl⟩, -⟩ := h source mem
        rw [form?_of_none place]
        rfl
      have each : sources.reverse.filterMap leaf.said? =
          sources.reverse.filterMap (Item.field? leaf.name) :=
        List.filterMap_congr fun source mem => said source (h source (List.mem_reverse.mp mem))
      rw [decided?_eq_of_plain plain, said _ (Item.isSource_stack h), Item.field?_stack h,
        Item.map_pile leaf.refuses, ← List.head?_filterMap, each]

/-- The section of a setting can be read in sources together if it can in the highest that has it. -/
theorem all_isSection_form?_stack {leaf : Leaf} {sources : List Item}
    (h : ∀ source ∈ sources, source.IsSource) :
    (leaf.form? (Item.stack sources)).all Item.isSection =
      (sources.reverse.findSome? leaf.form?).all Item.isSection := by
  cases place : leaf.inSection? with
  | some name =>
      rw [form?_of_section place, Item.field?_stack h, Item.all_isSection_pile, List.head?_filterMap]
  | none =>
      have readable : ∀ source : Item, source.IsSource →
          (leaf.form? source).all Item.isSection = true := by
        rintro source ⟨⟨entries, rfl⟩, -⟩
        rw [form?_of_none place]
        rfl
      rw [readable _ (Item.isSource_stack h)]
      cases found : sources.reverse.findSome? leaf.form? with
      | none => rfl
      | some form =>
          obtain ⟨source, mem, same⟩ := List.exists_of_findSome?_eq_some found
          have fine := readable source (h source (List.mem_reverse.mp mem))
          rw [same] at fine
          exact fine.symm

end Leaf

/-- The settings there are. -/
def leaves : List Leaf :=
  let traversal? (item : Item) := item.text?.bind Scoring.Traversal.ofName?
  let format? (item : Item) := item.text?.bind Render.Format.ofName?
  [⟨_, none, "exclude", 0, Item.texts?, exclude, fun _ => rfl⟩,
    ⟨_, some "grouping", "labels", 0, Item.texts?, labels, fun _ => rfl⟩,
    ⟨_, some "engine", "traversal", 0, traversal?, traversal, fun _ => rfl⟩,
    ⟨_, some "pmd", "program", 0, Item.text?, (·.checker.program), fun _ => rfl⟩,
    ⟨_, some "pmd", "args", 1, Item.texts?, (·.checker.args), fun _ => rfl⟩,
    ⟨_, some "pmd", "rulesets", 2, Item.texts?, (·.checker.rulesets), fun _ => rfl⟩,
    ⟨_, some "readability", "program", 0, Item.text?, (·.readability.program), fun _ => rfl⟩,
    ⟨_, some "readability", "args", 1, Item.texts?, (·.readability.args), fun _ => rfl⟩,
    ⟨_, some "readability", "working_dir", 2, optionalText?, (·.readability.workingDir),
      fun _ => rfl⟩,
    ⟨_, some "readability", "ignore_prefixes", 3, Item.texts?, (·.readability.ignored),
      fun _ => rfl⟩,
    ⟨_, some "output", "format", 0, format?, format, fun _ => rfl⟩]

/-! ### Reading all settings -/

theorem single?_eq_some_iff {α : Type} {name : String} {reader : Item → Option α} {fallback v : α}
    {form? : Option Item} :
    read (single? name reader fallback) fallback form? = some v ↔ form?.all Item.isSection = true ∧
      read reader fallback (form?.bind (Item.member? name 0)) = some v := by
  cases form? with
  | none => simp [read]
  | some form =>
      cases form <;>
        simp [read, single?, section?, Item.isSection, Item.member?, List.range_succ]

theorem checkerOf?_eq_some_iff {form? : Option Item} {c : Violations.CheckerSettings} :
    read checkerOf? default.checker form? = some c ↔ form?.all Item.isSection = true ∧
      read Item.text? default.checker.program (form?.bind (Item.member? "program" 0)) =
        some c.program ∧
      read Item.texts? default.checker.args (form?.bind (Item.member? "args" 1)) = some c.args ∧
      read Item.texts? default.checker.rulesets (form?.bind (Item.member? "rulesets" 2)) =
        some c.rulesets := by
  obtain ⟨program, args, rulesets⟩ := c
  cases form? with
  | none => simp [read, default, defaultChecker]
  | some form =>
      cases form <;>
        simp [read, checkerOf?, section?, Item.isSection, Item.member?, Option.bind_eq_some_iff,
          List.range_succ, default]

theorem readabilityOf?_eq_some_iff {form? : Option Item} {r : Readability.Settings} :
    read readabilityOf? default.readability form? = some r ↔ form?.all Item.isSection = true ∧
      read Item.text? default.readability.program (form?.bind (Item.member? "program" 0)) =
        some r.program ∧
      read Item.texts? default.readability.args (form?.bind (Item.member? "args" 1)) =
        some r.args ∧
      read optionalText? default.readability.workingDir
        (form?.bind (Item.member? "working_dir" 2)) = some r.workingDir ∧
      read Item.texts? default.readability.ignored
        (form?.bind (Item.member? "ignore_prefixes" 3)) = some r.ignored := by
  obtain ⟨program, args, workingDir, ignored⟩ := r
  cases form? with
  | none => simp [read, default, defaultReadability]
  | some form =>
      cases form <;>
        simp [read, readabilityOf?, section?, Item.isSection, Item.member?,
          Option.bind_eq_some_iff, List.range_succ, default]

/-- A table says settings exactly if its sections can be read and each setting is read as its
value. -/
theorem ofItem?_eq_some_iff {entries : Item.Entries} {s : Settings} :
    ofItem? (.table entries) = some s ↔
      ∀ leaf ∈ leaves, (leaf.form? (.table entries)).all Item.isSection = true ∧
        leaf.value? (leaf.said? (.table entries)) = some (leaf.get s) := by
  obtain ⟨exclude, labels, traversal, checker, readability, format⟩ := s
  simp only [ofItem?, section?, List.map_cons, List.map_nil, Option.bind_eq_bind, Option.bind_some,
    Option.bind_eq_some_iff, single?_eq_some_iff, checkerOf?_eq_some_iff,
    readabilityOf?_eq_some_iff, Option.pure_def, Option.some.injEq, Settings.mk.injEq]
  simp only [leaves, List.forall_mem_cons]
  constructor
  · rintro ⟨_, excluded, _, ⟨grouping, labelled⟩, _, ⟨engine, walked⟩,
      _, ⟨pmd, program, args, rulesets⟩, _, ⟨reader, program', args', directory, ignored⟩,
      _, ⟨output, written⟩, rfl, rfl, rfl, rfl, rfl, rfl⟩
    exact ⟨⟨rfl, excluded⟩, ⟨grouping, labelled⟩, ⟨engine, walked⟩, ⟨pmd, program⟩, ⟨pmd, args⟩,
      ⟨pmd, rulesets⟩, ⟨reader, program'⟩, ⟨reader, args'⟩, ⟨reader, directory⟩,
      ⟨reader, ignored⟩, ⟨output, written⟩, fun _ none => absurd none List.not_mem_nil⟩
  · rintro ⟨⟨-, excluded⟩, ⟨grouping, labelled⟩, ⟨engine, walked⟩, ⟨pmd, program⟩, ⟨-, args⟩,
      ⟨-, rulesets⟩, ⟨reader, program'⟩, ⟨-, args'⟩, ⟨-, directory⟩, ⟨-, ignored⟩,
      ⟨output, written⟩, -⟩
    exact ⟨_, excluded, _, ⟨grouping, labelled⟩, _, ⟨engine, walked⟩,
      _, ⟨pmd, program, args, rulesets⟩, _, ⟨reader, program', args', directory, ignored⟩,
      _, ⟨output, written⟩, rfl, rfl, rfl, rfl, rfl, rfl⟩

/-! ### Settings of sources -/

/-- Settings that sources say together, the last of them the highest. -/
structure Layered (sources : List Item) (s : Settings) : Prop where
  /-- The highest source that has a section has it in a form that can be read. -/
  formed : ∀ leaf ∈ leaves, (sources.reverse.findSome? leaf.form?).all Item.isSection = true
  /-- Each setting has the value of what decides it, or its default where nothing does. -/
  decided : ∀ leaf ∈ leaves, leaf.value? (leaf.decided? sources) = some (leaf.get s)
  /-- There is a grouping key. -/
  grouped : s.labels ≠ []

/-- The settings of `leaves` are all there are. -/
theorem eq_of_leaves {s t : Settings} (h : ∀ leaf ∈ leaves, leaf.get s = leaf.get t) : s = t := by
  obtain ⟨_, _, _, ⟨_, _, _⟩, ⟨_, _, _, _⟩, _⟩ := s
  obtain ⟨_, _, _, ⟨_, _, _⟩, ⟨_, _, _, _⟩, _⟩ := t
  simp only [leaves, List.forall_mem_cons] at h
  simp [h]

theorem Layered.of_plain {sources : List Item} {s : Settings} (h : Layered sources s) {leaf : Leaf}
    (mem : leaf ∈ leaves) (plain : leaf.Plain sources) :
    leaf.value? (sources.reverse.findSome? leaf.said?) = some (leaf.get s) :=
  Leaf.decided?_eq_of_plain plain ▸ h.decided leaf mem

theorem mapM_id_eq_some_iff {sources : List (Option Item)} {items : List Item} :
    sources.mapM id = some items ↔ sources = items.map some := by
  induction sources generalizing items with
  | nil => cases items <;> simp
  | cons source rest ih =>
      cases items with
      | nil => simp [List.mapM_cons, Option.bind_eq_some_iff]
      | cons item items => simp [List.mapM_cons, Option.bind_eq_some_iff, ih]

theorem validate_eq_ok_iff {s t : Settings} : s.validate = .ok t ↔ s = t ∧ t.labels ≠ [] := by
  rw [validate]
  split
  case isTrue none =>
    refine iff_of_false nofun ?_
    rintro ⟨rfl, some⟩
    exact some (List.isEmpty_iff.mp none)
  case isFalse some =>
    constructor
    · intro ok
      obtain rfl := Except.ok.inj ok
      exact ⟨rfl, fun none => some (List.isEmpty_iff.mpr none)⟩
    · rintro ⟨rfl, -⟩
      rfl

theorem ofItem?_stack {sources : List Item} (h : ∀ source ∈ sources, source.IsSource)
    {s : Settings} :
    ofItem? (Item.stack sources) = some s ↔ ∀ leaf ∈ leaves,
      (sources.reverse.findSome? leaf.form?).all Item.isSection = true ∧
        leaf.value? (leaf.decided? sources) = some (leaf.get s) := by
  obtain ⟨⟨entries, stacked⟩, -⟩ := Item.isSource_stack h
  rw [stacked, ofItem?_eq_some_iff, ← stacked]
  refine forall₂_congr fun leaf _ => ?_
  rw [leaf.all_isSection_form?_stack h, Leaf.value?_stack h]

theorem exists_map_some_nil {P : List Item → Prop} :
    (∃ items, [] = items.map some ∧ P items) ↔ P [] := by
  constructor
  · rintro ⟨items, none, holds⟩
    rwa [List.map_eq_nil_iff.mp none.symm] at holds
  · exact fun holds => ⟨[], rfl, holds⟩

theorem exists_map_some_cons {P : List Item → Prop} {source : Option Item}
    {rest : List (Option Item)} :
    (∃ items, source :: rest = items.map some ∧ P items) ↔
      ∃ item, source = some item ∧ ∃ items, rest = items.map some ∧ P (item :: items) := by
  constructor
  · rintro ⟨items, all, holds⟩
    obtain ⟨item, others, rfl, first, rfl⟩ := List.map_eq_cons_iff.mp all.symm
    exact ⟨item, first.symm, others, rfl, holds⟩
  · rintro ⟨item, rfl, items, rfl, holds⟩
    exact ⟨item :: items, rfl, holds⟩

/-- Sources have settings exactly if all can be read and these are what they say setting by
setting. -/
theorem ofSources_eq_ok_iff {sources : List (Option Item)}
    (h : ∀ source, some source ∈ sources → source.IsSource) {s : Settings} :
    ofSources sources = .ok s ↔ ∃ items, sources = items.map some ∧ Layered items s := by
  rw [ofSources]
  cases all : sources.mapM id with
  | none =>
      refine iff_of_false nofun ?_
      rintro ⟨items, same, -⟩
      rw [mapM_id_eq_some_iff.mpr same] at all
      cases all
  | some items =>
      obtain rfl := mapM_id_eq_some_iff.mp all
      have each : ∀ item ∈ items, item.IsSource := fun item mem => h item (List.mem_map_of_mem mem)
      have whole : (∃ others, items.map some = others.map some ∧ Layered others s) ↔
          Layered items s := by
        constructor
        · rintro ⟨others, same, layered⟩
          exact (List.map_injective_iff.mpr (fun _ _ => Option.some.inj) same) ▸ layered
        · exact fun layered => ⟨items, rfl, layered⟩
      rw [Option.bind_some, whole]
      cases read : ofItem? (Item.stack items) with
      | none =>
          refine iff_of_false nofun fun layered => ?_
          rw [(ofItem?_stack each).mpr fun leaf mem =>
            ⟨layered.formed leaf mem, layered.decided leaf mem⟩] at read
          cases read
      | some t =>
          have said := (ofItem?_stack each).mp read
          refine validate_eq_ok_iff.trans ⟨?_, fun layered => ⟨?_, layered.grouped⟩⟩
          · rintro ⟨rfl, grouped⟩
            exact ⟨fun leaf mem => (said leaf mem).1, fun leaf mem => (said leaf mem).2, grouped⟩
          · exact eq_of_leaves fun leaf mem =>
              Option.some.inj ((said leaf mem).2.symm.trans (layered.decided leaf mem))

/-! ### Loading -/

theorem isSource_fileItem? {w : World} {path : String} {item : Item}
    (h : fileItem? w path = some item) : item.IsSource := by
  unfold fileItem? at h
  split at h
  · exact Toml.isSource_item? h
  · cases h

theorem isSource_optionalFileItem? {w : World} {path : String} {item : Item}
    (h : optionalFileItem? w path = some item) : item.IsSource := by
  unfold optionalFileItem? at h
  split at h
  · exact isSource_fileItem? h
  · exact Option.some.inj h ▸ Item.isSource_empty

/-- In a tree without links a file found by its names says what its text says. -/
theorem optionalFileItem?_absoluteText {w : World} {entries : List (String × Files.Entry)}
    (tree : w.tree = .directory entries) (free : w.tree.isLinkFree) {place : List String}
    (named : ∀ n ∈ place, Files.IsName n) {content : Text.Utf8.Bytes} {text : String}
    (there : w.tree.seek place = .ok (.file content))
    (decoded : Text.Utf8.decode? content = some text) :
    optionalFileItem? w (Files.absoluteText place) = Toml.item? text := by
  have reached := (World.map_snd_resolve_of_tree tree free named).trans there
  have read : w.readText (Files.absoluteText place) = .ok text := by
    rw [World.readText, World.read_eq, reached]
    simp only [decoded]
  have found : isFile w (Files.absoluteText place) = true := by
    rw [isFile]
    cases resolved : w.resolve (Files.absoluteText place) with
    | error fault => rw [resolved] at reached; cases reached
    | ok result =>
        obtain ⟨_, e⟩ := result
        rw [resolved] at reached
        obtain rfl := Except.ok.inj reached
        rfl
  have only : candidates w (Files.absoluteText place) = [Files.absoluteText place] := by
    rw [candidates, if_pos (Files.isAbsolute_absoluteText place)]
  rw [optionalFileItem?, only, List.find?_cons_of_pos found]
  simp only [fileItem?, read]

theorem forDirectory_eq_ok_iff {w : World} {environment : List (String × String)}
    {directory : String} {s : Settings} :
    forDirectory w environment directory = .ok s ↔
      ∃ low high, optionalFileItem? w (Files.within directory "cxlens.toml") = some low ∧
        optionalFileItem? w (Files.within directory ".cxlens/cxlens.toml") = some high ∧
        Layered [low, high, Variable.item environment] s := by
  have each : ∀ source, some source ∈ [optionalFileItem? w (Files.within directory "cxlens.toml"),
      optionalFileItem? w (Files.within directory ".cxlens/cxlens.toml"),
      some (Variable.item environment)] → source.IsSource := by
    intro source mem
    simp only [List.mem_cons, List.not_mem_nil, or_false, Option.some.injEq] at mem
    obtain found | found | rfl := mem
    · exact isSource_optionalFileItem? found.symm
    · exact isSource_optionalFileItem? found.symm
    · exact Variable.isSource_item environment
  refine (ofSources_eq_ok_iff each).trans ?_
  simp only [exists_map_some_cons, exists_map_some_nil, Option.some.injEq, exists_eq_left',
    exists_and_left]

theorem fromFile_eq_ok_iff {w : World} {environment : List (String × String)} {path : String}
    {s : Settings} :
    fromFile w environment path = .ok s ↔ w.pathExists path = true ∧
      ∃ named, fileItem? w path = some named ∧ Layered [named, Variable.item environment] s := by
  have each : ∀ source, some source ∈ [fileItem? w path, some (Variable.item environment)] →
      source.IsSource := by
    intro source mem
    simp only [List.mem_cons, List.not_mem_nil, or_false, Option.some.injEq] at mem
    obtain found | rfl := mem
    · exact isSource_fileItem? found.symm
    · exact Variable.isSource_item environment
  rw [fromFile]
  split
  case isFalse missing => exact iff_of_false nofun fun found => missing found.1
  case isTrue there =>
    refine (ofSources_eq_ok_iff each).trans ?_
    simp only [exists_map_some_cons, exists_map_some_nil, Option.some.injEq, exists_eq_left',
      there, true_and]

/-- Settings of a directory are those that its two files and the variables say together, and
settings with a named file those of that file and the variables, with no other file. Where sources
have the section of a setting only as tables, the setting has the value that the highest source
gives it which says it, whatever the sources say of other settings. -/
theorem settings_are_layered (w : World) (environment : List (String × String)) :
    (∀ directory s, forDirectory w environment directory = .ok s ↔
      ∃ low high, optionalFileItem? w (Files.within directory "cxlens.toml") = some low ∧
        optionalFileItem? w (Files.within directory ".cxlens/cxlens.toml") = some high ∧
        Layered [low, high, Variable.item environment] s) ∧
    (∀ path s, fromFile w environment path = .ok s ↔ w.pathExists path = true ∧
      ∃ named, fileItem? w path = some named ∧ Layered [named, Variable.item environment] s) ∧
    (∀ sources s, Layered sources s → ∀ leaf ∈ leaves, leaf.Plain sources →
      leaf.value? (sources.reverse.findSome? leaf.said?) = some (leaf.get s)) :=
  ⟨fun _ _ => forDirectory_eq_ok_iff, fun _ _ => fromFile_eq_ok_iff,
    fun _ _ layered _ mem plain => layered.of_plain mem plain⟩

/-- A directory with one setting in its lower file alone and one in both files. -/
def twoFiles : World where
  tree := .directory [
    ("cxlens.toml", .file (Text.Utf8.encode "[pmd]\nrulesets = [\"r\"]\nargs = [\"-x\"]\n")),
    (".cxlens", .directory [("cxlens.toml", .file (Text.Utf8.encode "pmd.args = []\n"))])]
  present := []

theorem low_twoFiles :
    optionalFileItem? twoFiles (Files.within "/" "cxlens.toml") =
      some (.table [("pmd", .table [("rulesets", .list [.text "r"]),
        ("args", .list [.text "-x"])])]) := by
  have place : Files.within "/" "cxlens.toml" = Files.absoluteText ["cxlens.toml"] := by
    decide +kernel
  have decoded : Text.Utf8.decode?
      (Text.Utf8.encode "[pmd]\nrulesets = [\"r\"]\nargs = [\"-x\"]\n") =
      some "[pmd]\nrulesets = [\"r\"]\nargs = [\"-x\"]\n" := by cbv
  rw [place, optionalFileItem?_absoluteText rfl (by decide) (by decide) rfl decoded]
  cbv

theorem high_twoFiles :
    optionalFileItem? twoFiles (Files.within "/" ".cxlens/cxlens.toml") =
      some (.table [("pmd", .table [("args", .list [])])]) := by
  have place : Files.within "/" ".cxlens/cxlens.toml" =
      Files.absoluteText [".cxlens", "cxlens.toml"] := by decide +kernel
  have decoded : Text.Utf8.decode? (Text.Utf8.encode "pmd.args = []\n") =
      some "pmd.args = []\n" := by cbv
  rw [place, optionalFileItem?_absoluteText rfl (by decide) (by decide) rfl decoded]
  cbv

/-- What the two files and a variable say, the lowest first. -/
def threeSources : List Item :=
  [.table [("pmd", .table [("rulesets", .list [.text "r"]), ("args", .list [.text "-x"])])],
    .table [("pmd", .table [("args", .list [])])],
    .table [("pmd", .table [("program", .text "run")])]]

theorem variable_twoFiles :
    Variable.item [("CXLENS_PMD__PROGRAM", "run")] =
      .table [("pmd", .table [("program", .text "run")])] := by
  have path : Variable.path? "CXLENS_PMD__PROGRAM" = some ["pmd", "program"] := by decide +kernel
  have text : Variable.value "run" = .text "run" := rfl
  simp only [Variable.item, List.filterMap_cons, List.filterMap_nil, path, text, Option.map_some]
  rfl

theorem layered_threeSources :
    Layered threeSources { default with checker := ⟨"run", [], ["r"]⟩ } where
  formed := by decide
  decided := by
    simp only [leaves, List.forall_mem_cons]
    exact ⟨rfl, rfl, rfl, rfl, rfl, rfl, rfl, rfl, rfl, rfl, rfl,
      fun _ none => absurd none List.not_mem_nil⟩
  grouped := by decide

theorem plain_threeSources : ∀ leaf ∈ leaves, leaf.Plain threeSources := by decide

/-- A variable, the higher file and the lower one each decide a setting, and a list takes the place
of the one below it. -/
theorem settings_are_layered_twoFiles :
    forDirectory twoFiles [("CXLENS_PMD__PROGRAM", "run")] "/" =
        .ok { default with checker := ⟨"run", [], ["r"]⟩ } ∧
      ∀ leaf ∈ leaves, leaf.value? (threeSources.reverse.findSome? leaf.said?) =
        some (leaf.get { default with checker := ⟨"run", [], ["r"]⟩ }) := by
  obtain ⟨forDirectory_iff, -, law⟩ :=
    settings_are_layered twoFiles [("CXLENS_PMD__PROGRAM", "run")]
  refine ⟨(forDirectory_iff "/" _).mpr ⟨_, _, low_twoFiles, high_twoFiles, ?_⟩, fun leaf mem =>
    law threeSources _ layered_threeSources leaf mem (plain_threeSources leaf mem)⟩
  rw [variable_twoFiles]
  exact layered_threeSources

/-- A directory with a section as a table in the lower file and as a list in the higher one. -/
def listOverTable : World where
  tree := .directory [
    ("cxlens.toml", .file (Text.Utf8.encode "[pmd]\nargs = [\"-x\"]\n")),
    (".cxlens", .directory [("cxlens.toml", .file (Text.Utf8.encode "pmd = []\n"))])]
  present := []

theorem low_listOverTable :
    optionalFileItem? listOverTable (Files.within "/" "cxlens.toml") =
      some (.table [("pmd", .table [("args", .list [.text "-x"])])]) := by
  have place : Files.within "/" "cxlens.toml" = Files.absoluteText ["cxlens.toml"] := by
    decide +kernel
  have decoded : Text.Utf8.decode? (Text.Utf8.encode "[pmd]\nargs = [\"-x\"]\n") =
      some "[pmd]\nargs = [\"-x\"]\n" := by cbv
  rw [place, optionalFileItem?_absoluteText rfl (by decide) (by decide) rfl decoded]
  cbv

theorem high_listOverTable :
    optionalFileItem? listOverTable (Files.within "/" ".cxlens/cxlens.toml") =
      some (.table [("pmd", .list [])]) := by
  have place : Files.within "/" ".cxlens/cxlens.toml" =
      Files.absoluteText [".cxlens", "cxlens.toml"] := by decide +kernel
  have decoded : Text.Utf8.decode? (Text.Utf8.encode "pmd = []\n") = some "pmd = []\n" := by cbv
  rw [place, optionalFileItem?_absoluteText rfl (by decide) (by decide) rfl decoded]
  cbv

/-- An empty list in place of a section says none of its settings and hides those of the lower
file: the settings are the defaults, though the highest source that says the arguments of the rule
checker is the lower file. -/
theorem list_hides_section_below :
    ∃ low high,
      optionalFileItem? listOverTable (Files.within "/" "cxlens.toml") = some low ∧
        optionalFileItem? listOverTable (Files.within "/" ".cxlens/cxlens.toml") = some high ∧
        forDirectory listOverTable [] "/" = .ok default ∧
        ¬∀ leaf ∈ leaves,
          leaf.value? ([low, high, Variable.item []].reverse.findSome? leaf.said?) =
            some (leaf.get default) := by
  refine ⟨_, _, low_listOverTable, high_listOverTable, ?_, fun law => ?_⟩
  · rw [forDirectory, fileNames, List.map_cons, List.map_cons, low_listOverTable,
      high_listOverTable]
    rfl
  · simp only [leaves, List.forall_mem_cons] at law
    obtain ⟨-, -, -, -, args, -⟩ := law
    have same : some ["-x"] = some [] := args
    cases same

end SuiteMetrics.Settings
