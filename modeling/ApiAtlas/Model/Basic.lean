import ApiAtlas.Json.Basic
import ApiAtlas.Model.Context

namespace ApiAtlas

/-- The place of a model in the list. -/
abbrev ModelId := Nat

/-- A model by its place: reached through a reference to a component, or written in place. -/
inductive Resolved
  | ref (name : String) (model : ModelId)
  | value (model : ModelId)
deriving Repr, DecidableEq, Inhabited

namespace Resolved

/-- The place of the model. -/
def id : Resolved → ModelId
  | .ref _ model => model
  | .value model => model

/-- The component that was referred to. -/
def refName? : Resolved → Option String
  | .ref name _ => some name
  | .value _ => none

end Resolved

/-- The kinds of plain values. -/
inductive PrimitiveKind
  | int
  | double
  | boolean
  | string
deriving Repr, DecidableEq, Inhabited

/-- A plain value with the default that fits its kind. -/
inductive Primitive
  | int (fallback : Option Int)
  | double (fallback : Option Binary64)
  | boolean (fallback : Option Bool)
  | string (fallback : Option String)
deriving Repr, DecidableEq, Inhabited

namespace Primitive

/-- A plain value of a kind; a default that does not fit the kind is dropped. -/
def ofDefault (kind : PrimitiveKind) (fallback : Option Json) : Primitive :=
  match kind with
  | .int => .int (fallback.bind Json.int64?)
  | .double => .double (fallback.bind Json.binary64?)
  | .boolean => .boolean (fallback.bind Json.bool?)
  | .string => .string (fallback.bind Json.string?)

/-- There is a default. -/
def hasDefault : Primitive → Bool
  | .int fallback => fallback.isSome
  | .double fallback => fallback.isSome
  | .boolean fallback => fallback.isSome
  | .string fallback => fallback.isSome

end Primitive

/-- Values of one type, in a list, a set, or a map from texts. -/
inductive Collection
  | list (element : Resolved)
  | set (element : Resolved)
  | map (element : Resolved)
deriving Repr, DecidableEq, Inhabited

/-- The type of the elements. -/
def Collection.element : Collection → Resolved
  | .list element => element
  | .set element => element
  | .map element => element

/-- A property of an object. -/
structure Property where
  name : String
  model : Resolved
  /-- It has to be there, be it `null`. -/
  required : Bool
  nullable : Bool
  description : Option String
  readOnly : Bool
  writeOnly : Bool
deriving Repr, DecidableEq, Inhabited

/-- An object with named properties. -/
structure ObjectModel where
  context : Context
  description : Option String
  properties : List Property
  /-- Other members are allowed. -/
  additional : Bool
deriving Repr, DecidableEq, Inhabited

/-- The property of a name. -/
def ObjectModel.property? (object : ObjectModel) (name : String) : Option Property :=
  object.properties.find? (·.name == name)

/-- One of the types of a union. -/
structure Case where
  label : String
  context : Context
  model : Resolved
deriving Repr, DecidableEq, Inhabited

/-- A value of one of several types. -/
structure UnionModel where
  context : Context
  description : Option String
  cases : List Case
  /-- The property that tells the cases apart. -/
  discriminator : Option String
  fallback : Option String
deriving Repr, DecidableEq, Inhabited

/-- Whether an enum takes values beside the listed ones. -/
inductive EnumKind
  /-- It takes no others; its values are carried by one kind of plain value. -/
  | closed (carrier : PrimitiveKind)
  /-- It takes any text. -/
  | extensible
deriving Repr, DecidableEq, Inhabited

/-- One of several texts. -/
structure EnumModel where
  kind : EnumKind
  context : Context
  values : List String
  fallback : Option String
  description : Option String
deriving Repr, DecidableEq, Inhabited

/-- A value of an enum. -/
inductive EnumValue
  /-- One of the listed values, by its place. -/
  | known (index : Nat)
  /-- Any other text, as it came. -/
  | custom (raw : String)
deriving Repr, DecidableEq

namespace EnumModel

/-- It takes values beside the listed ones. -/
def isOpen (model : EnumModel) : Bool := model.kind == .extensible

/-- The value that a text stands for. -/
def decode (model : EnumModel) (raw : String) : Option EnumValue :=
  match model.values.findIdx? (· == raw) with
  | some index => some (.known index)
  | none => if model.isOpen then some (.custom raw) else none

/-- The text that stands for a value. -/
def encode (model : EnumModel) : EnumValue → Option String
  | .known index => model.values[index]?
  | .custom raw => if model.isOpen then some raw else none

end EnumModel

/-- A type. -/
inductive Model
  | primitive (primitive : Primitive)
  | binary
  | freeForm
  | collection (collection : Collection)
  | object (object : ObjectModel)
  | union (union : UnionModel)
  | enum (enum : EnumModel)
deriving Repr, DecidableEq, Inhabited

namespace Model

/-- The context that a model is named after; only objects, unions and enums have names. -/
def context? : Model → Option Context
  | .object o => some o.context
  | .union u => some u.context
  | .enum e => some e.context
  | _ => none

/-- The models that this one is made of. -/
def children : Model → List Resolved
  | .collection c => [c.element]
  | .object o => o.properties.map Property.model
  | .union u => u.cases.map Case.model
  | _ => []

end Model

/-- The models of a document. -/
structure Models where
  nodes : List Model
  /-- The model of each component that resolved. -/
  components : Entries ModelId
  /-- For each model the literal path segments of the operation that it was made for. -/
  scopes : List (List String)
deriving Repr

namespace Models

/-- The model at a place. -/
def get? (models : Models) (id : ModelId) : Option Model := models.nodes[id]?

/-- The model of a component. -/
def component? (models : Models) (name : String) : Option ModelId :=
  Entries.get? models.components name

/-- The literal path segments of the operation that a model was made for. -/
def scope (models : Models) (id : ModelId) : List String := models.scopes[id]?.getD []

/-- The models that have names, with their places and contexts. -/
def nameable (models : Models) : List (ModelId × Context) :=
  models.nodes.zipIdx.filterMap fun (model, id) => model.context?.map (id, ·)

end Models

end ApiAtlas
