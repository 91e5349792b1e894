/-!
Finite maps as lists of entries in the order of their keys, each key once.
-/

namespace EntryCode

abbrev Table (κ ν : Type) := List (κ × ν)

namespace Table

variable {κ ν : Type} [LT κ] [DecidableLT κ] [DecidableEq κ]

/-- Puts an entry in its place; one with the same key gives way. -/
def insert (k : κ) (v : ν) : Table κ ν → Table κ ν
  | [] => [(k, v)]
  | e :: rest =>
    if k = e.1 then (k, v) :: rest
    else if k < e.1 then (k, v) :: e :: rest
    else e :: insert k v rest

/-- The table of the given entries, of which the last one for a key counts. -/
def ofEntries (entries : List (κ × ν)) : Table κ ν :=
  entries.foldl (fun t e => insert e.1 e.2 t) []

end Table

end EntryCode
