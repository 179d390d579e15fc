/-
Tables keyed by text: association lists in byte order of their keys, each key once. `put` keeps
the order, so a table built by `put` alone is sorted and iterating it is iterating sorted keys.
-/
import DocAtlas.Text.Basic

namespace DocAtlas

/-- A list as a document may hold it: `none` is a list that was never made. -/
abbrev Listing (α : Type) := Option (List α)

/-- Values under keys in byte order. -/
abbrev Table (α : Type) := List (Text × α)

namespace Table

variable {α : Type}

/-- The value of a key. -/
def find? (key : Text) (t : Table α) : Option α := (List.find? (fun e => e.1 == key) t).map Prod.snd

/-- Sets the value of a key: the entry is replaced, or added at its place. -/
def put (key : Text) (value : α) : Table α → Table α
  | [] => [(key, value)]
  | (k, v) :: t =>
    if k = key then (key, value) :: t
    else if Text.le k key then (k, v) :: put key value t
    else (key, value) :: (k, v) :: t

/-- Takes a key away. -/
def erase (key : Text) (t : Table α) : Table α := List.filter (fun e => e.1 != key) t

/-- The keys in order. -/
def keys (t : Table α) : List Text := List.map Prod.fst t

/-- The table of some entries, of which the last for a key counts. -/
def ofPairs (ps : List (Text × α)) : Table α := ps.foldl (fun t p => put p.1 p.2 t) []

end Table

end DocAtlas
