import SuiteMetrics.Proofs.Contribution

/-!
The lengths of the keys in an aggregator's rows.

A `History` is any way in which an aggregator comes about; unlike a plan it may merge aggregators
that were set up for keys of different lengths. Records and declarations are checked when they
arrive, but `Aggregator.merge` takes over every bucket of the other aggregator as it is. The rows
therefore have the lengths of all aggregators in the history that took anything
(`History.exists_row_iff`), and they all have the aggregator's own length just when no aggregator
for another length took anything (`keys_full_iff`).
-/

namespace SuiteMetrics

/-- How an aggregator comes about from aggregators for keys of any length. -/
inductive History where
  /-- A new aggregator for keys of one length. -/
  | new (keyLength : Nat)
  | perform (h : History) (op : Operation)
  /-- Another aggregator is merged into one. -/
  | merge (h other : History)

/-- Whether an aggregator for keys of one length takes what an operation brings. -/
def Operation.Fits (keyLength : Nat) : Operation → Prop
  | .add r => r.key.length = keyLength ∧ r.value.isFinite
  | .declare key _ => key.length = keyLength

namespace History

def run : History → Aggregator
  | .new keyLength => .new keyLength
  | .perform h op => op.apply h.run
  | .merge h other => h.run.merge other.run

/-- In the history, an aggregator for keys of length `n` takes a record or a declaration. -/
inductive Takes (n : Nat) : History → Prop where
  | here {h : History} {op : Operation} : h.run.keyLength = n → op.Fits n → Takes n (.perform h op)
  | before {h : History} {op : Operation} : Takes n h → Takes n (.perform h op)
  | left {h other : History} : Takes n h → Takes n (.merge h other)
  | right {h other : History} : Takes n other → Takes n (.merge h other)

/-! ### Histories as contributions -/

def contributions : History → List Contribution
  | .new _ => []
  | .perform h op => h.contributions ++ op.contributions h.run.keyLength
  | .merge h other => h.contributions ++ other.contributions

theorem holds_contributions (h : History) : h.run.Holds h.contributions := by
  induction h with
  | new keyLength => exact .new keyLength
  | perform h op ih => exact ih.apply op
  | merge h other ih ihOther => exact ih.merge ihOther

end History

/-- What an operation files has a key of the aggregator's length, and it files something if it
fits. -/
theorem Operation.exists_filed_iff (op : Operation) (keyLength n : Nat) :
    (∃ slot values, .filed slot values ∈ op.contributions keyLength ∧ slot.key.length = n) ↔
      keyLength = n ∧ op.Fits n := by
  cases op with
  | add r =>
      simp only [contributions, Fits, List.mem_singleton]
      constructor
      · rintro ⟨slot, values, filed, rfl⟩
        split at filed
        case isTrue fits =>
            cases filed
            exact ⟨fits.1.symm, rfl, fits.2⟩
        case isFalse => cases filed
      · rintro ⟨rfl, fits⟩
        exact ⟨_, _, (if_pos fits).symm, fits.1⟩
  | declare key metric =>
      simp only [contributions, Fits]
      constructor
      · rintro ⟨slot, values, filed, rfl⟩
        split at filed
        case isTrue fits =>
            cases List.mem_singleton.mp filed
            exact ⟨fits.symm, rfl⟩
        case isFalse => cases filed
      · rintro ⟨rfl, fits⟩
        exact ⟨⟨key, metric⟩, [], by rw [if_pos fits]; exact List.mem_singleton_self _, fits⟩

namespace History

theorem exists_filed_iff (h : History) (n : Nat) :
    (∃ slot values, .filed slot values ∈ h.contributions ∧ slot.key.length = n) ↔ h.Takes n := by
  induction h with
  | new keyLength =>
      constructor
      · rintro ⟨slot, values, filed, -⟩
        cases filed
      · intro takes
        cases takes
  | perform h op ih =>
      simp only [contributions, List.mem_append, or_and_right, exists_or, ih,
        op.exists_filed_iff]
      constructor
      · rintro (takes | ⟨length, fits⟩)
        · exact .before takes
        · exact .here length fits
      · intro takes
        cases takes with
        | here length fits => exact .inr ⟨length, fits⟩
        | before takes => exact .inl takes
  | merge h other ih ihOther =>
      simp only [contributions, List.mem_append, or_and_right, exists_or, ih, ihOther]
      constructor
      · rintro (takes | takes)
        · exact .left takes
        · exact .right takes
      · intro takes
        cases takes with
        | left takes => exact .inl takes
        | right takes => exact .inr takes

end History

/-! ### Rows -/

/-- An aggregator has rows for the slots under which something was filed. -/
theorem Aggregator.Holds.exists_row_iff [Arithmetic Float] {a : Aggregator}
    {cs : List Contribution} (holds : a.Holds cs) (slot : Slot) :
    (∃ r ∈ a.summaries, Slot.mk r.key r.metric = slot) ↔ ∃ values, .filed slot values ∈ cs := by
  have filed : (Assoc.get? slot a.buckets).isSome ↔ cs.any (Contribution.isFor slot) := by
    rw [← Option.isSome_map, holds.values, Contribution.collected]
    split <;> simp [*]
  constructor
  · rintro ⟨r, mem, rfl⟩
    obtain ⟨⟨slot, bucket⟩, inBuckets, rfl⟩ := List.mem_map.mp mem
    have read := (Assoc.mem_iff_get? holds.ascending).mp inBuckets
    obtain ⟨c, mem, isFor⟩ := List.any_eq_true.mp (filed.mp (Option.isSome_of_eq_some read))
    cases c with
    | filed s values =>
        cases of_decide_eq_true isFor
        exact ⟨values, mem⟩
    | refusal => cases isFor
  · rintro ⟨values, mem⟩
    have any : cs.any (Contribution.isFor slot) :=
      List.any_eq_true.mpr ⟨_, mem, decide_eq_true rfl⟩
    obtain ⟨bucket, read⟩ := Option.isSome_iff_exists.mp (filed.mpr any)
    exact ⟨_, List.mem_map_of_mem (Assoc.mem_of_get? read), rfl⟩

/-- There is a row with a key of some length exactly when, in the history, an aggregator for keys of
that length took anything. -/
theorem History.exists_row_iff [Arithmetic Float] (h : History) (n : Nat) :
    (∃ r ∈ h.run.summaries, r.key.length = n) ↔ h.Takes n := by
  rw [← h.exists_filed_iff]
  constructor
  · rintro ⟨r, mem, length⟩
    obtain ⟨values, filed⟩ := (h.holds_contributions.exists_row_iff _).mp ⟨r, mem, rfl⟩
    exact ⟨_, values, filed, length⟩
  · rintro ⟨slot, values, filed, length⟩
    obtain ⟨r, mem, same⟩ := (h.holds_contributions.exists_row_iff slot).mpr ⟨values, filed⟩
    exact ⟨r, mem, by rw [← length, ← same]⟩

/-- All rows of an aggregator have keys of its own length exactly when, in its whole history, no
aggregator for keys of another length took anything. -/
theorem keys_full_iff [Arithmetic Float] (h : History) :
    (∀ r ∈ h.run.summaries, r.key.length = h.run.keyLength) ↔
      ∀ n, h.Takes n → n = h.run.keyLength := by
  constructor
  · intro full n takes
    obtain ⟨r, mem, rfl⟩ := (h.exists_row_iff n).mpr takes
    exact full r mem
  · intro only r mem
    exact only _ ((h.exists_row_iff _).mp ⟨r, mem, rfl⟩)

/-- A group with two labels is declared in one aggregator, which is merged into one for keys of one
label. -/
def mixedHistory : History :=
  .merge (.new 1) (.perform (.new 2) (.declare ⟨["x", "y"]⟩ .cognitive))

/-- The aggregator for one label then has a row with two. -/
theorem mixedHistory_keys :
    ¬ ∀ r ∈ mixedHistory.run.summaries, r.key.length = mixedHistory.run.keyLength := by
  decide

end SuiteMetrics
