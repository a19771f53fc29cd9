import ApiAtlas.Document.Basic
import ApiAtlas.Model.Basic
import ApiAtlas.Route.Media
import ApiAtlas.Route.Status

namespace ApiAtlas

/-- The methods an operation may have. -/
inductive Method
  | get
  | post
  | put
  | delete
  | patch
  | options
  | head
  | trace
deriving Repr, DecidableEq, Inhabited

namespace Method

/-- The methods in the order in which a path's operations are resolved. -/
def all : List Method := [.get, .post, .put, .delete, .patch, .options, .head, .trace]

/-- The name in capitals. -/
def name : Method → String
  | .get => "GET"
  | .post => "POST"
  | .put => "PUT"
  | .delete => "DELETE"
  | .patch => "PATCH"
  | .options => "OPTIONS"
  | .head => "HEAD"
  | .trace => "TRACE"

/-- The member of a path item that holds the operation. -/
def key : Method → String
  | .get => "get"
  | .post => "post"
  | .put => "put"
  | .delete => "delete"
  | .patch => "patch"
  | .options => "options"
  | .head => "head"
  | .trace => "trace"

end Method

/-- The operation of a method. -/
def PathItem.operation? (item : PathItem) : Method → Option Operation
  | .get => item.get
  | .post => item.post
  | .put => item.put
  | .delete => item.delete
  | .patch => item.patch
  | .options => item.options
  | .head => item.head
  | .trace => item.trace

/-- A part of a form. -/
structure FormField where
  name : String
  model : Resolved
  required : Bool
  contentType : Option String
deriving Repr, DecidableEq, Inhabited

/-- What a request body is in one media type. -/
inductive Payload
  | json (model : Resolved)
  | xml (model : Resolved)
  | octetStream
  | multipart (model : Option Resolved) (fields : List FormField)
  | other (model : Option Resolved)
deriving Repr, DecidableEq, Inhabited

/-- A request body in one media type. -/
structure Body where
  payload : Payload
  extensions : Entries Json := []
deriving Repr, Inhabited

/-- The models that a body refers to. -/
def Body.models (body : Body) : List Resolved :=
  match body.payload with
  | .json model => [model]
  | .xml model => [model]
  | .octetStream => []
  | .multipart model fields => model.toList ++ fields.map FormField.model
  | .other model => model.toList

/-- A request body by media type. -/
structure Bodies where
  required : Bool := false
  description : Option String := none
  types : Entries Body := []
  extensions : Entries Json := []
deriving Repr, Inhabited

namespace Bodies

/-- The first JSON body. -/
def json? (bodies : Bodies) : Option Body :=
  (bodies.types.find? fun (media, body) =>
    Media.isJson media && match body.payload with
      | .json _ => true
      | _ => false).map Prod.snd

/-- The first form. -/
def multipart? (bodies : Bodies) : Option Body :=
  (bodies.types.find? fun (_, body) =>
    match body.payload with
    | .multipart .. => true
    | _ => false).map Prod.snd

end Bodies

/-- A parameter with its type. -/
structure Input where
  name : String
  location : ParameterLocation
  model : Resolved
  required : Bool
  nullable : Bool
  description : Option String
  deprecated : Bool
deriving Repr, DecidableEq, Inhabited

/-- What comes back under one status. -/
structure ReturnType where
  model : Option Resolved
  mediaType : Option String
  description : Option String
  extensions : Entries Json := []
deriving Repr, Inhabited

/-- What comes back, by status. -/
structure Returns where
  types : List (Status × ReturnType) := []
  extensions : Entries Json := []
deriving Repr, Inhabited

namespace Returns

/-- The first return of a success. -/
def success? (returns : Returns) : Option (Status × ReturnType) :=
  returns.types.find? fun (status, _) => status.isSuccess

end Returns

/-- An operation with its types. -/
structure Route where
  operationId : String
  method : Method
  path : String
  summary : Option String := none
  description : Option String := none
  tags : List String := []
  deprecated : Bool := false
  body : Bodies := {}
  input : List Input := []
  returns : Returns := {}
  extensions : Entries Json := []
deriving Repr, Inhabited

namespace Route

/-- The models that a route refers to. -/
def models (route : Route) : List Resolved :=
  route.input.map Input.model ++
    route.body.types.flatMap (fun (_, body) => body.models) ++
    route.returns.types.flatMap fun (_, type) => type.model.toList

end Route

end ApiAtlas
