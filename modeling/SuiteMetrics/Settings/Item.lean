/-!
What sources of settings say, before it is known which setting is meant.

An item is a text, a list, a table of named items, or something that no setting is. Items are laid
over each other: a table over a table name by name, and anything else in place of what was there.
-/

namespace SuiteMetrics.Settings

/-- A value from a source of settings. -/
inductive Item where
  | text (s : String)
  | list (items : List Item)
  | table (entries : List (String × Item))
  /-- A number or a truth value. -/
  | scalar
  /-- The value that stands for no value. -/
  | nothing
  deriving Inhabited

namespace Item

/-- Named items. -/
abbrev Entries := List (String × Item)

/-- Entries with an item put under a name, in place of one that is there. -/
def put (name : String) (item : Item) : Entries → Entries
  | [] => [(name, item)]
  | (n, old) :: rest => if n = name then (n, item) :: rest else (n, old) :: put name item rest

mutual

/-- An item laid over another one. -/
def overlay (low : Item) : Item → Item
  | .table entries =>
    match low with
    | .table below => .table (overlayAll below entries)
    | _ => .table (overlayAll [] entries)
  | item => item

/-- Entries laid over others, one after the other. -/
def overlayAll (below : Entries) : Entries → Entries
  | [] => below
  | (name, item) :: rest =>
    overlayAll (put name (overlay ((below.lookup name).getD .nothing) item) below) rest

end

/-- Some items laid over each other, the lowest first. -/
def stack (items : List Item) : Item := items.foldl overlay (.table [])

/-- An item inside tables with some names. -/
def nest (item : Item) : List String → Item
  | [] => item
  | name :: path => .table [(name, nest item path)]

/-- The items of a list. -/
def items? : Item → Option (List Item)
  | .list items => some items
  | _ => none

/-- A text. -/
def text? : Item → Option String
  | .text s => some s
  | _ => none

/-- A list of texts. -/
def texts? (item : Item) : Option (List String) := item.items?.bind fun items => items.mapM text?

end Item

end SuiteMetrics.Settings
