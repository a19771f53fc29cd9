namespace ApiAtlas

/-- Pairs in order of first occurrence. -/
abbrev Entries (α : Type) := List (String × α)

namespace Entries

variable {κ α : Type} [DecidableEq κ]

/-- The keys in order. -/
def keys (entries : List (κ × α)) : List κ := entries.map Prod.fst

/-- The values in order. -/
def values (entries : List (κ × α)) : List α := entries.map Prod.snd

/-- The value of a key. -/
def get? (entries : List (κ × α)) (key : κ) : Option α := entries.lookup key

/-- Some pair has this key. -/
def has (entries : List (κ × α)) (key : κ) : Bool := entries.any (·.1 == key)

/-- Set a key: in place if it is there, at the end if not. -/
def set (key : κ) (value : α) : List (κ × α) → List (κ × α)
  | [] => [(key, value)]
  | (k, v) :: rest => if k = key then (key, value) :: rest else (k, v) :: set key value rest

/-- Set the pairs one after the other. -/
def ofPairs (pairs : List (String × α)) : Entries α :=
  pairs.foldl (fun entries (key, value) => set key value entries) []

/-- Set a key of entries kept in ascending order of their keys. -/
def setSorted (key : String) (value : α) : Entries α → Entries α
  | [] => [(key, value)]
  | (k, v) :: rest =>
    if key < k then (key, value) :: (k, v) :: rest
    else if k = key then (key, value) :: rest
    else (k, v) :: setSorted key value rest

/-- Set the pairs one after the other, in ascending order of their keys. -/
def sorted (pairs : List (String × α)) : Entries α :=
  pairs.foldl (fun entries (key, value) => setSorted key value entries) []

end Entries

end ApiAtlas
