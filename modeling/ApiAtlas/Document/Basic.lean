import ApiAtlas.Document.Schema

namespace ApiAtlas

/-- A reference by its text, or a value written in place. -/
inductive Referable (α : Type)
  | ref (path : String)
  | inline (value : α)
deriving Repr

/-- How one part of a form is sent. -/
structure Encoding where
  contentType : Option String
deriving Repr, DecidableEq

/-- A payload in one media type. -/
structure MediaType where
  schema : Option SchemaNode := none
  encoding : Entries Encoding := []
  extensions : Entries Json := []
deriving Repr, Inhabited

/-- Where a parameter is sent. -/
inductive ParameterLocation
  | query
  | header
  | path
  | cookie
deriving Repr, DecidableEq, Inhabited

/-- A parameter of an operation. -/
structure Parameter where
  name : String
  location : ParameterLocation
  description : Option String := none
  required : Bool := false
  deprecated : Option Bool := none
  schema : Option SchemaNode := none
  content : Entries MediaType := []
deriving Repr

/-- The schema of a parameter's value: its own, or that of its first media type that has one. -/
def Parameter.valueSchema? (parameter : Parameter) : Option SchemaNode :=
  match parameter.schema with
  | some schema => some schema
  | none => parameter.content.findSome? fun (_, media) => media.schema

/-- The body that an operation takes. -/
structure RequestBody where
  description : Option String := none
  content : Entries MediaType
  required : Bool := false
  extensions : Entries Json := []
deriving Repr

/-- An answer of an operation. -/
structure Response where
  description : String := ""
  content : Entries MediaType := []
  extensions : Entries Json := []
deriving Repr

/-- The answers of an operation by status, and the `x-` members that stand among them. -/
structure Responses where
  entries : Entries (Referable Response) := []
  extensions : Entries Json := []
deriving Repr

/-- An operation on a path. -/
structure Operation where
  operationId : Option String := none
  summary : Option String := none
  description : Option String := none
  tags : List String := []
  parameters : List (Referable Parameter) := []
  requestBody : Option (Referable RequestBody) := none
  responses : Responses := {}
  deprecated : Option Bool := none
  extensions : Entries Json := []
deriving Repr

/-- The operations on a path, and the parameters they share. -/
structure PathItem where
  summary : Option String := none
  description : Option String := none
  parameters : List (Referable Parameter) := []
  get : Option Operation := none
  post : Option Operation := none
  put : Option Operation := none
  delete : Option Operation := none
  patch : Option Operation := none
  options : Option Operation := none
  head : Option Operation := none
  trace : Option Operation := none
deriving Repr

/-- Definitions to refer to. -/
structure Components where
  schemas : Entries SchemaNode := []
  responses : Entries (Referable Response) := []
  parameters : Entries (Referable Parameter) := []
  requestBodies : Entries (Referable RequestBody) := []
deriving Repr

/-- What a document says of itself. -/
structure Info where
  title : String
  description : Option String := none
  version : String
deriving Repr, DecidableEq

/-- An address where the API is served. -/
structure Server where
  url : String
  description : Option String := none
deriving Repr, DecidableEq

/-- An API document. -/
structure Document where
  openapi : String
  info : Info
  servers : List Server := []
  paths : Entries PathItem := []
  components : Option Components := none
deriving Repr

/-- The schemas that a document gives names to. -/
def Document.schemas (document : Document) : Entries SchemaNode :=
  match document.components with
  | some components => components.schemas
  | none => []

/-- The `x-` members of extensions, in order. -/
def vendorExtensions (extensions : Entries Json) : Entries Json :=
  extensions.filter fun (key, _) => ['x', '-'].isPrefixOf key.toList

/-- One of the keys is there with a value that is neither `false` nor `null`. -/
def isFlagged (extensions : Entries Json) (keys : List String) : Bool :=
  keys.any fun key =>
    match Entries.get? extensions key with
    | some (.bool b) => b
    | some .null => false
    | some _ => true
    | none => false

end ApiAtlas
