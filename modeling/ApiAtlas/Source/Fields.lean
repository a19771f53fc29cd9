import ApiAtlas.Source.Node

namespace ApiAtlas

/-- A declared field, and whether a list may end before it. -/
structure Field where
  name : String
  mayLack : Bool
deriving Repr, DecidableEq

/-- The members of a record, by name. -/
abbrev Fields (α : Type) := List (String × α)

namespace Fields

variable {α β : Type}

/-- The list read as the first of the declared fields. -/
def ofPositions? (declared : List Field) (items : List α) : Option (Fields α) :=
  if items.length ≤ declared.length ∧ (declared.drop items.length).all Field.mayLack then
    some ((declared.map Field.name).zip items)
  else none

/-- The member of a name; it fails on two of them. -/
def single? (fields : Fields α) (name : String) : Option (Option α) :=
  match fields.filter (·.1 == name) with
  | [] => some none
  | [(_, value)] => some (some value)
  | _ => none

/-- A field that has to be there. -/
def demand (fields : Fields α) (name : String) (read : α → Option β) : Option β :=
  (fields.single? name).bind fun found => found.bind read

/-- A field that may be missing or stand for nothing. -/
def optional (fields : Fields α) (name : String) (absent? : α → Option Bool)
    (read : α → Option β) : Option (Option β) :=
  (fields.single? name).bind fun
    | none => some none
    | some value =>
      (absent? value).bind fun absent => if absent then some none else (read value).map some

/-- A field that has a value of its own when it is missing. -/
def withDefault (fields : Fields α) (name : String) (read : α → Option β) (fallback : β) :
    Option β :=
  (fields.single? name).bind fun
    | none => some fallback
    | some value => read value

/-- The members that are not declared. -/
def others (fields : Fields α) (declared : List String) : Fields α :=
  fields.filter fun field => !declared.contains field.1

end Fields

/-- All the members read, a later one in the place of an earlier one of its key. -/
def readEntries {α β : Type} (read : α → Option β) (members : List (String × α)) :
    Option (Entries β) :=
  (members.mapM fun member => (read member.2).map (member.1, ·)).map Entries.ofPairs

namespace Node

/-- The fields of a record. -/
def fields? (declared : List Field) : Node → Option (Fields Node)
  | .sequence positional _ items =>
    if positional then Fields.ofPositions? declared items else none
  | node => node.members?

/-- A list, each item read. -/
def listOf {β : Type} (read : Node → Option β) (node : Node) : Option (List β) :=
  node.items?.bind fun items => items.mapM read

/-- A map, each value read. -/
def entriesOf {β : Type} (read : Node → Option β) (node : Node) : Option (Entries β) :=
  node.members?.bind (readEntries read)

end Node

namespace Datum

/-- Whether the value stands for an optional value that is not there. -/
def absent? : Datum → Option Bool
  | .null => some true
  | _ => some false

/-- The text of a string. -/
def string? : Datum → Option String
  | .string s => some s
  | _ => none

/-- The truth value of a boolean. -/
def bool? : Datum → Option Bool
  | .bool b => some b
  | _ => none

/-- The items of a list. -/
def items? : Datum → Option (List Datum)
  | .list items => some items
  | _ => none

/-- Members whose keys are strings. -/
def namedMembers? : List (Datum × Datum) → Option (List (String × Datum))
  | [] => some []
  | (key, value) :: rest => do
    let name ← key.string?
    let others ← namedMembers? rest
    pure ((name, value) :: others)

/-- The pairs of a map. -/
def members? : Datum → Option (List (String × Datum))
  | .record members => namedMembers? members
  | _ => none

/-- Members by the names of declared fields. A number without a minus sign counts the fields from
zero, and past the last one its member is passed over. -/
def countedMembers? (declared : List String) :
    List (Datum × Datum) → Option (List (String × Datum))
  | [] => some []
  | (key, value) :: rest => do
    let others ← countedMembers? declared rest
    match key with
    | .string name => pure ((name, value) :: others)
    | .natural n =>
      match declared[n]? with
      | some name => pure ((name, value) :: others)
      | none => pure others
    | _ => none

/-- The fields of a record. -/
def fields? (declared : List Field) : Datum → Option (Fields Datum)
  | .list items => Fields.ofPositions? declared items
  | .record members => countedMembers? (declared.map Field.name) members
  | _ => none

/-- The name among `names` that the value chooses: as a string, or as the only key of a map to
`null`. -/
def choice? (names : List String) : Datum → Option String
  | .string name => if names.contains name then some name else none
  | .record [(key, .null)] =>
    match key with
    | .string name => if names.contains name then some name else none
    | .natural n => names[n]?
    | _ => none
  | _ => none

/-- A list, each item read. -/
def listOf {β : Type} (read : Datum → Option β) (datum : Datum) : Option (List β) :=
  datum.items?.bind fun items => items.mapM read

/-- A map, each value read. -/
def entriesOf {β : Type} (read : Datum → Option β) (datum : Datum) : Option (Entries β) :=
  datum.members?.bind (readEntries read)

/-- The text of a reference: a map whose one `$ref` is a string. -/
def reference? : Datum → Option String
  | .record members =>
    (countedMembers? ["$ref"] members).bind fun fields => Fields.demand fields "$ref" string?
  | _ => none

mutual

/-- How deep the collections of a value are nested, plus one. -/
def depth : Datum → Nat
  | .list items => depthOfItems items + 1
  | .record members => depthOfMembers members + 1
  | _ => 1

/-- The depth of the deepest item. -/
def depthOfItems : List Datum → Nat
  | [] => 0
  | datum :: rest => max datum.depth (depthOfItems rest)

/-- The depth of the deepest member. -/
def depthOfMembers : List (Datum × Datum) → Nat
  | [] => 0
  | (_, value) :: rest => max value.depth (depthOfMembers rest)

end

end Datum

end ApiAtlas
