import ApiAtlas.Document.Basic
import ApiAtlas.Reference

namespace ApiAtlas

/-- What a node leads to. `seen` holds the names passed so far; `fuel` is more than the number of
names that may still come. -/
def Referable.followWithin {α : Type} (kind : Section) (table : Entries (Referable α))
    (location : String) : Nat → List String → Referable α → Except ResolveError α
  | _, _, .inline value => .ok value
  | 0, _, .ref path => .error (.unresolvedRef path location)
  | fuel + 1, seen, .ref path => do
    let name ← kind.parseName path location
    if seen.contains name then
      throw (.circularRef (seen ++ [name]) location)
    match Entries.get? table name with
    | some next => followWithin kind table location fuel (seen ++ [name]) next
    | none => throw (.unresolvedRef path location)

/-- What a node at a location leads to. -/
def Referable.follow {α : Type} (kind : Section) (table : Entries (Referable α))
    (location : String) (node : Referable α) : Except ResolveError α :=
  node.followWithin kind table location (table.length + 1) []

end ApiAtlas
