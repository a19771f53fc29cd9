import ApiAtlas.Json.Basic

namespace ApiAtlas

/-- A type that a schema may declare. -/
inductive SchemaType
  | string
  | number
  | integer
  | boolean
  | array
  | object
  | null
deriving Repr, DecidableEq, Inhabited

/-- The declared types: one name, or a list. -/
inductive TypeSet
  | single (type : SchemaType)
  | several (types : List SchemaType)
deriving Repr, DecidableEq

namespace TypeSet

/-- `null` is one of the declared types. -/
def includesNull : TypeSet → Bool
  | .single t => t == .null
  | .several ts => ts.contains .null

/-- The declared types other than `null`, in order. -/
def nonNull : TypeSet → List SchemaType
  | .single t => if t = .null then [] else [t]
  | .several ts => ts.filter (· ≠ .null)

end TypeSet

/-- How a payload tells the branches of a composition apart. -/
structure Discriminator where
  propertyName : String
  mapping : Entries String
deriving Repr, DecidableEq

/-- What the members of an object may be beside its properties. -/
inductive Additional (σ : Type)
  | allowed (yes : Bool)
  | each (schema : σ)
deriving Repr

/-- The keywords of a schema, over the nodes `σ` below it. -/
structure SchemaOf (σ : Type) where
  types : Option TypeSet := none
  format : Option String := none
  description : Option String := none
  defaultValue : Option Json := none
  nullable : Option Bool := none
  properties : List (String × σ) := []
  required : List String := []
  additional : Option (Additional σ) := none
  items : Option σ := none
  uniqueItems : Option Bool := none
  allOf : List σ := []
  oneOf : List σ := []
  anyOf : List σ := []
  discriminator : Option Discriminator := none
  enumValues : Option (List Json) := none
  constValue : Option Json := none
  readOnly : Option Bool := none
  writeOnly : Option Bool := none
  extensions : Entries Json := []
deriving Repr, Inhabited

/-- A reference by its text, or a schema written in place. -/
inductive SchemaNode
  | ref (path : String)
  | inline (schema : SchemaOf SchemaNode)
deriving Repr, Inhabited

/-- A schema over nodes that may be references. -/
abbrev Schema := SchemaOf SchemaNode

namespace SchemaNode

/-- The schema written in place. -/
def schema? : SchemaNode → Option Schema
  | .ref _ => none
  | .inline schema => some schema

/-- A schema written in place that declares no type but `null`. -/
def isNullSchema : SchemaNode → Bool
  | .ref _ => false
  | .inline schema => schema.types.any fun t => t.nonNull.isEmpty && t.includesNull

mutual

/-- The number of nodes in a tree of schemas. -/
def size : SchemaNode → Nat
  | .ref _ => 1
  | .inline { properties, additional, items, allOf, oneOf, anyOf, .. } =>
    1 + sizeOfEntries properties + sizeOfAdditional additional + sizeOfItems items +
      sizeOfList allOf + sizeOfList oneOf + sizeOfList anyOf

/-- The number of nodes below properties. -/
def sizeOfEntries : List (String × SchemaNode) → Nat
  | [] => 0
  | (_, node) :: rest => node.size + sizeOfEntries rest

/-- The number of nodes below `additionalProperties`. -/
def sizeOfAdditional : Option (Additional SchemaNode) → Nat
  | none => 0
  | some (.allowed _) => 0
  | some (.each node) => node.size

/-- The number of nodes below `items`. -/
def sizeOfItems : Option SchemaNode → Nat
  | none => 0
  | some node => node.size

/-- The number of nodes below a list of branches. -/
def sizeOfList : List SchemaNode → Nat
  | [] => 0
  | node :: rest => node.size + sizeOfList rest

end

end SchemaNode

namespace SchemaOf

/-- The declared types other than `null`. -/
def nonNullTypes {σ : Type} (schema : SchemaOf σ) : List SchemaType :=
  match schema.types with
  | some types => types.nonNull
  | none => []

/-- `nullable` is set, or `null` is one of the types. -/
def isNullable {σ : Type} (schema : SchemaOf σ) : Bool :=
  schema.nullable.getD false || schema.types.any TypeSet.includesNull

/-- The branches of `oneOf`, or of `anyOf` where there are none. -/
def composition {σ : Type} (schema : SchemaOf σ) : List σ :=
  if schema.oneOf.isEmpty then schema.anyOf else schema.oneOf

/-- The keyword that `composition` reads. -/
def compositionKeyword {σ : Type} (schema : SchemaOf σ) : String :=
  if schema.oneOf.isEmpty then "anyOf" else "oneOf"

/-- The only branch that is not `null`, where another one is. -/
def nullableWrapper? (schema : Schema) : Option SchemaNode :=
  if schema.composition.any SchemaNode.isNullSchema then
    match schema.composition.filter fun branch => !branch.isNullSchema with
    | [only] => some only
    | _ => none
  else none

end SchemaOf

end ApiAtlas
