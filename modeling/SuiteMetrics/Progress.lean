/-!
Progress of an analysis over its files.
-/

namespace SuiteMetrics

/-- How many files are known to be done. -/
structure Progress where
  done : Nat
  deriving DecidableEq, Repr

namespace Progress

/-- Before the first file. -/
def start : Progress := ⟨0⟩

/-- After an announcement, which may come late: a smaller number than before changes nothing. -/
def update (p : Progress) (done : Nat) : Progress := ⟨max p.done done⟩

/-- The announcements of an analysis, one for every file: how many are done, and of how many. -/
def announcements (total : Nat) : List (Nat × Nat) :=
  (List.range total).map fun i => (i + 1, total)

end Progress

end SuiteMetrics
