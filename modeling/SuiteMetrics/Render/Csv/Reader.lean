/-!
Reading tables with comma-separated fields.

A field is bare or stands in quotes. A bare field has no comma, no quote and no line break; in
quotes, a quote is written twice and every other character stands for itself. Fields are separated
by commas and records end with a line feed, which may be left out after the last one. A text that
breaks these rules is not read at all.
-/

namespace SuiteMetrics.Render.Csv

/-- Where a reader stands in a field. -/
inductive Place where
  /-- Nothing of the field has been read. -/
  | opening
  /-- In a field without quotes. -/
  | bare
  /-- Between quotes. -/
  | quoted
  /-- Behind a quote that ends the field, unless another quote follows. -/
  | closed
  deriving DecidableEq, Repr

/-- What a reader finds from its place on. -/
structure Found where
  /-- The rest of the field. -/
  field : List Char
  /-- The other fields of the record. -/
  fields : List (List Char)
  /-- The other records. -/
  records : List (List (List Char))

namespace Found

/-- All records, where the field is the first of its record. -/
def all (f : Found) : List (List (List Char)) := (f.field :: f.fields) :: f.records

/-- More characters in front of the rest of the field. -/
def prepend (s : List Char) (f : Found) : Found := { f with field := s ++ f.field }

/-- The field ends here, and another follows. -/
def nextField (f : Found) : Found := ⟨[], f.field :: f.fields, f.records⟩

/-- The field and its record end here. -/
def nextRecord (records : List (List (List Char))) : Found := ⟨[], [], records⟩

end Found

/-- Reading from a place on. -/
def readFrom : Place → List Char → Option Found
  | .quoted, [] => none
  | _, [] => some (.nextRecord [])
  | .quoted, c :: r =>
    if c = '"' then readFrom .closed r else (readFrom .quoted r).map (.prepend [c])
  | place, c :: r =>
    if c = ',' then (readFrom .opening r).map .nextField
    else if c = '\n' then
      -- no record begins at the end of the text
      if r.isEmpty then some (.nextRecord [])
      else (readFrom .opening r).map fun f => .nextRecord f.all
    else if c = '"' then
      match place with
      | .opening => readFrom .quoted r
      | .closed => (readFrom .quoted r).map (.prepend ['"'])
      | _ => none
    else if c = '\r' ∨ place = .closed then none
    else (readFrom .bare r).map (.prepend [c])

/-- The records of some characters. -/
def recordsOf? (s : List Char) : Option (List (List (List Char))) :=
  if s.isEmpty then some [] else (readFrom .opening s).map Found.all

/-- The records of a text, if it is a table. -/
def read? (s : String) : Option (List (List String)) :=
  (recordsOf? s.toList).map fun records => records.map fun fields => fields.map String.ofList

end SuiteMetrics.Render.Csv
