import ApiAtlas.Json.Basic

namespace ApiAtlas

/-- A value whose type its text alone has settled. A number out of range of binary64 or not a
number is `float none`. -/
inductive Datum
  | null
  | bool (b : Bool)
  /-- A whole number without a minus sign. -/
  | natural (n : Nat)
  /-- A whole number with a minus sign, which zero may have, too. -/
  | negated (n : Nat)
  | float (x : Option Binary64)
  | string (s : String)
  | list (items : List Datum)
  | record (members : List (Datum × Datum))
deriving Repr, Inhabited

/-- A scalar by the answers it gives. -/
structure Scalar where
  /-- To a reader who expects a text. -/
  text : Option String := none
  /-- To a reader who expects a truth value. -/
  truth : Option Bool := none
  /-- To a reader who expects a natural number below `2 ^ 64`. -/
  count : Option Nat := none
  /-- To a reader who expects one of several names. -/
  choice : Option String := none
  /-- To a reader who expects nothing in particular. -/
  datum : Option Datum := none
  /-- To a reader who expects a value or nothing: whether it stands for nothing. -/
  absent : Option Bool := some false
  /-- It stands for a collection without items. -/
  isEmpty : Bool := false
deriving Repr, Inhabited

/-- A node of a text. -/
inductive Node
  | scalar (s : Scalar)
  /-- Items; `positional` if they may stand for the fields of a record, `plain` if a reader who
  expects nothing in particular takes them as a list. -/
  | sequence (positional plain : Bool) (items : List Node)
  /-- Pairs of a key and a value; `plain` if a reader who expects nothing in particular takes them
  as a record. -/
  | mapping (plain : Bool) (members : List (Node × Node))
deriving Repr, Inhabited

namespace Node

/-- A node that no reader accepts. -/
def unreadable : Node := .scalar {}

/-- The text of a scalar. -/
def text? : Node → Option String
  | .scalar s => s.text
  | _ => none

/-- The truth value of a scalar. -/
def truth? : Node → Option Bool
  | .scalar s => s.truth
  | _ => none

/-- The number of a scalar. -/
def count? : Node → Option Nat
  | .scalar s => s.count
  | _ => none

/-- The name that a scalar chooses. -/
def choice? : Node → Option String
  | .scalar s => s.choice
  | _ => none

/-- Whether the node stands for an optional value that is not there. -/
def absent? : Node → Option Bool
  | .scalar s => s.absent
  | _ => some false

/-- The items of a list. -/
def items? : Node → Option (List Node)
  | .scalar s => if s.isEmpty then some [] else none
  | .sequence _ _ items => some items
  | .mapping .. => none

/-- Pairs whose keys are texts. -/
def namedMembers? : List (Node × Node) → Option (List (String × Node))
  | [] => some []
  | (key, value) :: rest => do
    let name ← key.text?
    let others ← namedMembers? rest
    pure ((name, value) :: others)

/-- The pairs of a map. -/
def members? : Node → Option (List (String × Node))
  | .scalar s => if s.isEmpty then some [] else none
  | .sequence .. => none
  | .mapping _ members => namedMembers? members

mutual

/-- The node as a value settled by its text. -/
def datum? : Node → Option Datum
  | .scalar s => s.datum
  | .sequence _ plain items => if plain then (dataOf items).map .list else none
  | .mapping plain members => if plain then (dataOfMembers members).map .record else none

/-- All the items as values. -/
def dataOf : List Node → Option (List Datum)
  | [] => some []
  | node :: rest => do
    let first ← node.datum?
    let others ← dataOf rest
    pure (first :: others)

/-- All the keys and values as values. -/
def dataOfMembers : List (Node × Node) → Option (List (Datum × Datum))
  | [] => some []
  | (key, value) :: rest => do
    let key ← key.datum?
    let value ← value.datum?
    let others ← dataOfMembers rest
    pure ((key, value) :: others)

end

end Node

/-- A scalar as JSON; what is not a number becomes `null`. -/
def Datum.scalarJson? : Datum → Option Json
  | .null => some .null
  | .bool b => some (.bool b)
  | .natural n => some (.int n)
  | .negated n => some (.int (-n))
  | .float (some x) => some (.float x)
  | .float none => some .null
  | .string s => some (.string s)
  | _ => none

mutual

/-- The value as JSON, members in ascending order of their keys. -/
def Datum.json? : Datum → Option Json
  | .list items => (Datum.jsonItems items).map .array
  | .record members => (Datum.jsonMembers members).map fun ms => .object (Entries.sorted ms)
  | atom => atom.scalarJson?

/-- All the items as JSON. -/
def Datum.jsonItems : List Datum → Option (List Json)
  | [] => some []
  | datum :: rest => do
    let first ← datum.json?
    let others ← jsonItems rest
    pure (first :: others)

/-- All the members as JSON; a key has to be a string. -/
def Datum.jsonMembers : List (Datum × Datum) → Option (List (String × Json))
  | [] => some []
  | (key, value) :: rest => do
    let .string name := key | none
    let value ← value.json?
    let others ← jsonMembers rest
    pure ((name, value) :: others)

end

mutual

/-- The node as JSON, members in ascending order of their keys. -/
def Node.json? : Node → Option Json
  | .scalar s => s.datum.bind Datum.scalarJson?
  | .sequence _ plain items => if plain then (Node.jsonItems items).map .array else none
  | .mapping plain members =>
    if plain then (Node.jsonMembers members).map fun ms => .object (Entries.sorted ms) else none

/-- All the items as JSON. -/
def Node.jsonItems : List Node → Option (List Json)
  | [] => some []
  | node :: rest => do
    let first ← node.json?
    let others ← jsonItems rest
    pure (first :: others)

/-- All the members as JSON; a key has to be a text. -/
def Node.jsonMembers : List (Node × Node) → Option (List (String × Json))
  | [] => some []
  | (key, value) :: rest => do
    let name ← key.text?
    let value ← value.json?
    let others ← jsonMembers rest
    pure ((name, value) :: others)

end

mutual

/-- A JSON value as a value settled by its text. -/
def Json.datum : Json → Datum
  | .null => .null
  | .bool b => .bool b
  | .int (.ofNat n) => .natural n
  | .int (.negSucc n) => .negated (n + 1)
  | .float x => .float (some x)
  | .string s => .string s
  | .array items => .list (Json.dataOf items)
  | .object members => .record (Json.dataOfMembers members)

/-- The items as values. -/
def Json.dataOf : List Json → List Datum
  | [] => []
  | v :: vs => v.datum :: Json.dataOf vs

/-- The members as pairs of values. -/
def Json.dataOfMembers : List (String × Json) → List (Datum × Datum)
  | [] => []
  | (k, v) :: ms => (.string k, v.datum) :: Json.dataOfMembers ms

end

end ApiAtlas
