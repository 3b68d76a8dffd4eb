import Mathlib.Data.List.Sort
import Mathlib.Order.RelClasses
import SuiteMetrics.Assoc

/-!
The theory of ascending association lists.

An association list is read through `Assoc.get?`. On an ascending list `update` changes what is read
under its own key and nothing else (`get?_update`), and it keeps the list ascending
(`ascending_update`). Since the order of the keys is total, what is read under every key determines
the list (`ascending_ext`): however it came about, there is only one ascending list with given
contents. A pass of updates under different keys changes each of them once
(`get?_foldl_update_of_mem`). Two lists are merged by joining their values key by key
(`get?_mergeWith`).
-/

namespace SuiteMetrics.Assoc

variable {κ β γ : Type}

/-! ### Reading -/

section Reading

variable [DecidableEq κ]

theorem get?_cons (key k : κ) (v : β) (r : List (κ × β)) :
    get? key ((k, v) :: r) = if key = k then some v else get? key r := by
  rw [get?, List.lookup_cons]
  by_cases same : key = k
  · rw [if_pos same, beq_iff_eq.mpr same]
  · rw [if_neg same, beq_eq_false_iff_ne.mpr same]
    rfl

theorem mem_of_get? {key : κ} {v : β} {entries : List (κ × β)} (h : get? key entries = some v) :
    (key, v) ∈ entries := by
  induction entries with
  | nil => simp [get?] at h
  | cons e r ih =>
      obtain ⟨k, w⟩ := e
      rw [get?_cons] at h
      split at h
      case isTrue same =>
          cases h
          exact same ▸ List.mem_cons_self
      case isFalse => exact List.mem_cons_of_mem _ (ih h)

theorem get?_map (f : β → γ) (key : κ) (entries : List (κ × β)) :
    get? key (entries.map fun e => (e.1, f e.2)) = (get? key entries).map f := by
  induction entries with
  | nil => rfl
  | cons e r ih =>
      obtain ⟨k, v⟩ := e
      rw [List.map_cons, get?_cons, get?_cons, ih]
      split
      · rfl
      · rfl

end Reading

/-! ### Ascending lists -/

variable [LT κ]

/-- The keys stand in strictly ascending order. -/
def Ascending (entries : List (κ × β)) : Prop := entries.Pairwise fun a b => a.1 < b.1

theorem ascending_map {f : β → γ} {entries : List (κ × β)} (h : Ascending entries) :
    Ascending (entries.map fun e => (e.1, f e.2)) :=
  List.pairwise_map.mpr h

/-- No key stands twice in an ascending list. -/
theorem nodup_keys [IsStrictTotalOrder κ (· < ·)] {entries : List (κ × β)}
    (h : Ascending entries) : (entries.map Prod.fst).Nodup := by
  refine List.pairwise_map.mpr (h.imp ?_)
  intro a b lt same
  exact irrefl b.1 (same ▸ lt)

variable [DecidableEq κ]

section Order

variable [IsStrictTotalOrder κ (· < ·)]

/-- Nothing is read under a key that stands before all keys. -/
theorem get?_eq_none_of_lt {key : κ} {entries : List (κ × β)} (h : ∀ e ∈ entries, key < e.1) :
    get? key entries = none := by
  cases read : get? key entries with
  | none => rfl
  | some v => exact absurd (h _ (mem_of_get? read)) (irrefl key)

/-- On an ascending list, what is read under a key is all that stands under it. -/
theorem mem_iff_get? {entries : List (κ × β)} (h : Ascending entries) {key : κ} {v : β} :
    (key, v) ∈ entries ↔ get? key entries = some v := by
  refine ⟨fun mem => ?_, mem_of_get?⟩
  induction entries with
  | nil => simp at mem
  | cons e r ih =>
      obtain ⟨k, w⟩ := e
      obtain ⟨first, rest⟩ := List.pairwise_cons.mp h
      rw [get?_cons]
      rcases List.mem_cons.mp mem with same | later
      · cases same
        exact if_pos rfl
      · have ne : key ≠ k := by
          rintro rfl
          exact irrefl key (first (key, v) later)
        rw [if_neg ne]
        exact ih rest later

/-- Ascending lists that are read alike are equal. -/
theorem ascending_ext {xs ys : List (κ × β)} (hx : Ascending xs) (hy : Ascending ys)
    (h : ∀ key, get? key xs = get? key ys) : xs = ys := by
  have mem : ∀ e : κ × β, e ∈ xs ↔ e ∈ ys := fun e => by
    rw [mem_iff_get? hx, mem_iff_get? hy, h]
  have perm : xs.Perm ys :=
    (List.perm_ext_iff_of_nodup (nodup_keys hx).of_map (nodup_keys hy).of_map).mpr mem
  exact perm.eq_of_pairwise (fun a b _ _ ab ba => absurd ba (asymm ab)) hx hy

end Order

/-! ### Updating -/

variable [DecidableLT κ]

/-- An update puts no other key into a list. -/
theorem key_of_mem_update {key : κ} {change : Option β → β} {entries : List (κ × β)} {e : κ × β}
    (h : e ∈ update key change entries) : e.1 = key ∨ ∃ d ∈ entries, e.1 = d.1 := by
  induction entries with
  | nil =>
      left
      rw [List.mem_singleton.mp h]
  | cons d r ih =>
      obtain ⟨k, v⟩ := d
      rw [update] at h
      split at h
      case isTrue same =>
          rcases List.mem_cons.mp h with rfl | h
          · exact .inl same.symm
          · exact .inr ⟨e, List.mem_cons_of_mem _ h, rfl⟩
      case isFalse =>
          split at h
          · rcases List.mem_cons.mp h with rfl | h
            · exact .inl rfl
            · exact .inr ⟨e, h, rfl⟩
          · rcases List.mem_cons.mp h with rfl | h
            · exact .inr ⟨(k, v), List.mem_cons_self, rfl⟩
            · rcases ih h with eq | ⟨d, hd, eq⟩
              · exact .inl eq
              · exact .inr ⟨d, List.mem_cons_of_mem _ hd, eq⟩

variable [IsStrictTotalOrder κ (· < ·)]

/-- An ascending list stays ascending. -/
theorem ascending_update (key : κ) (change : Option β → β) {entries : List (κ × β)}
    (h : Ascending entries) : Ascending (update key change entries) := by
  induction entries with
  | nil => exact List.pairwise_singleton _ _
  | cons e r ih =>
      obtain ⟨k, v⟩ := e
      obtain ⟨first, rest⟩ := List.pairwise_cons.mp h
      rw [update]
      split
      case isTrue => exact List.pairwise_cons.mpr ⟨first, rest⟩
      case isFalse ne =>
          split
          case isTrue lt =>
              refine List.pairwise_cons.mpr ⟨fun e he => ?_, h⟩
              rcases List.mem_cons.mp he with rfl | he
              · exact lt
              · exact trans_of (· < ·) lt (first e he)
          case isFalse nlt =>
              refine List.pairwise_cons.mpr ⟨fun e he => ?_, ih rest⟩
              rcases key_of_mem_update he with eq | ⟨d, hd, eq⟩
              · rcases trichotomous_of (· < ·) k key with lt | same | gt
                · exact eq ▸ lt
                · exact absurd same.symm ne
                · exact absurd gt nlt
              · exact eq ▸ first d hd

/-- After an update of an ascending list, its own key is read changed and all others as before. -/
theorem get?_update (key : κ) (change : Option β → β) {entries : List (κ × β)}
    (h : Ascending entries) (k : κ) :
    get? k (update key change entries) =
      if k = key then some (change (get? key entries)) else get? k entries := by
  induction entries with
  | nil =>
      rw [update, get?_cons]
      rfl
  | cons e r ih =>
      obtain ⟨k', v⟩ := e
      obtain ⟨first, rest⟩ := List.pairwise_cons.mp h
      rw [update]
      by_cases same : key = k'
      · subst same
        rw [if_pos rfl, get?_cons, get?_cons, get?_cons, if_pos rfl]
        split
        · rfl
        · rfl
      · rw [if_neg same]
        by_cases lt : key < k'
        · have unread : get? key ((k', v) :: r) = none := by
            refine get?_eq_none_of_lt fun e he => ?_
            rcases List.mem_cons.mp he with rfl | he
            · exact lt
            · exact trans_of (· < ·) lt (first e he)
          rw [if_pos lt, get?_cons, unread]
        · rw [if_neg lt, get?_cons, get?_cons, get?_cons, if_neg same, ih rest]
          by_cases eq : k = k'
          · have ne : k ≠ key := fun h => same (h ▸ eq)
            rw [if_pos eq, if_neg ne, if_pos eq]
          · rw [if_neg eq, if_neg eq]

/-! ### Updating one key after another -/

section Passes

variable {α : Type} {keyOf : α → κ} {change : α → Option β → β}

theorem ascending_foldl_update (xs : List α) {entries : List (κ × β)} (h : Ascending entries) :
    Ascending (xs.foldl (fun es x => update (keyOf x) (change x) es) entries) := by
  induction xs generalizing entries with
  | nil => exact h
  | cons x xs ih => exact ih (ascending_update _ _ h)

/-- Keys that are not updated are read as before. -/
theorem get?_foldl_update_of_notMem {xs : List α} {key : κ} (fresh : key ∉ xs.map keyOf)
    {entries : List (κ × β)} (h : Ascending entries) :
    get? key (xs.foldl (fun es x => update (keyOf x) (change x) es) entries) =
      get? key entries := by
  induction xs generalizing entries with
  | nil => rfl
  | cons x xs ih =>
      rw [List.map_cons, List.mem_cons, not_or] at fresh
      obtain ⟨ne, fresh⟩ := fresh
      rw [List.foldl_cons, ih fresh (ascending_update _ _ h), get?_update _ _ h, if_neg ne]

/-- When all keys are different, each is updated once. -/
theorem get?_foldl_update_of_mem {xs : List α} (distinct : (xs.map keyOf).Nodup) {x : α}
    (mem : x ∈ xs) {entries : List (κ × β)} (h : Ascending entries) :
    get? (keyOf x) (xs.foldl (fun es x => update (keyOf x) (change x) es) entries) =
      some (change x (get? (keyOf x) entries)) := by
  induction xs generalizing entries with
  | nil => cases mem
  | cons y ys ih =>
      obtain ⟨fresh, distinct⟩ := List.nodup_cons.mp distinct
      rw [List.foldl_cons]
      rcases List.mem_cons.mp mem with rfl | mem
      · rw [get?_foldl_update_of_notMem fresh (ascending_update _ _ h), get?_update _ _ h,
          if_pos rfl]
      · have ne : keyOf x ≠ keyOf y := by
          intro same
          exact fresh (same ▸ List.mem_map_of_mem mem)
        rw [ih distinct mem (ascending_update _ _ h), get?_update _ _ h, if_neg ne]

end Passes

/-! ### Merging two lists -/

section Merging

/-- A list with the values of another list joined to its own, key by key; a key that it does not
have begins with `zero`. -/
def mergeWith (zero : β) (join : β → β → β) (entries more : List (κ × β)) : List (κ × β) :=
  more.foldl (fun acc e => update e.1 (fun own => join (own.getD zero) e.2) acc) entries

variable {zero : β} {join : β → β → β} {entries more : List (κ × β)}

theorem ascending_mergeWith (h : Ascending entries) (more : List (κ × β)) :
    Ascending (mergeWith zero join entries more) :=
  ascending_foldl_update more h

/-- Under the keys of the other list the joined values are read, and all others as before. -/
theorem get?_mergeWith (h : Ascending entries) (hm : Ascending more) (key : κ) :
    get? key (mergeWith zero join entries more) =
      match get? key more with
      | none => get? key entries
      | some v => some (join ((get? key entries).getD zero) v) := by
  cases read : get? key more with
  | none =>
      refine get?_foldl_update_of_notMem ?_ h
      intro known
      obtain ⟨⟨k, v⟩, mem, rfl⟩ := List.mem_map.mp known
      rw [(mem_iff_get? hm).mp mem] at read
      cases read
  | some v =>
      exact get?_foldl_update_of_mem (nodup_keys hm) (mem_of_get? read) h

/-- When joining goes on where a step of the other value left off, a list may be changed by the step
before it is merged or afterwards. -/
theorem mergeWith_update {step : β → β} (empty : ∀ own, join own zero = own)
    (next : ∀ own v, join own (step v) = step (join own v)) (h : Ascending entries)
    (hm : Ascending more) (key : κ) :
    mergeWith zero join entries (update key (fun v => step (v.getD zero)) more) =
      update key (fun v => step (v.getD zero)) (mergeWith zero join entries more) := by
  have merged : Ascending (mergeWith zero join entries more) := ascending_mergeWith h more
  refine ascending_ext (ascending_mergeWith h _) (ascending_update _ _ merged) fun k => ?_
  rw [get?_mergeWith h (ascending_update _ _ hm), get?_update _ _ hm, get?_update _ _ merged,
    get?_mergeWith h hm, get?_mergeWith h hm]
  by_cases same : k = key
  · subst same
    rw [if_pos rfl, if_pos rfl]
    cases get? k more with
    | none => exact congrArg some ((next _ _).trans (congrArg step (empty _)))
    | some v => exact congrArg some (next _ v)
  · rw [if_neg same, if_neg same]

end Merging

end SuiteMetrics.Assoc
