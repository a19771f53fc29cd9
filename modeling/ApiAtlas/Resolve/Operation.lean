import ApiAtlas.Naming.Operation
import ApiAtlas.Resolve.Follow
import ApiAtlas.Resolve.Schema
import ApiAtlas.Route.Tree

namespace ApiAtlas

/-- What operations are resolved against. -/
structure Surroundings where
  registry : Registry
  components : Components
  naming : NamingSettings

/-- An operation of a path. -/
structure Endpoint where
  path : String
  item : PathItem
  method : Method
  operation : Operation

namespace Endpoint

/-- The location of the operation. -/
def pointer (endpoint : Endpoint) : String :=
  below (below "#/paths" (escapeToken endpoint.path)) endpoint.method.key

/-- The unit that the operation is. -/
def source (endpoint : Endpoint) : Source := .route endpoint.method endpoint.path

end Endpoint

/-- The operations of a document, a path's in the order of `Method.all`. -/
def Document.endpoints (document : Document) : List Endpoint :=
  document.paths.flatMap fun (path, item) =>
    Method.all.filterMap fun method =>
      (item.operation? method).map fun operation => ⟨path, item, method, operation⟩

/-- What is being resolved of an operation: its name, its scope, its location. -/
structure Errand where
  name : String
  scope : List String
  pointer : String

namespace Surroundings

/-- A parameter with the location at which it is listed. -/
abbrev Listed := Parameter × String

/-- List parameters in order; a later one takes the place of an earlier one of its name and
location. -/
def listParameters (around : Surroundings) (parent : String)
    (listed : List ((String × ParameterLocation) × Listed))
    (nodes : List (Referable Parameter)) :
    Except ResolveError (List ((String × ParameterLocation) × Listed)) :=
  nodes.zipIdx.foldlM (fun listed (node, index) => do
    let location := below (below parent "parameters") (toString index)
    let parameter ← node.follow .parameters around.components.parameters location
    pure (Entries.set (parameter.name, parameter.location) (parameter, location) listed)) listed

/-- The parameters of an operation: those of its path, then its own. -/
def effectiveParameters (around : Surroundings) (endpoint : Endpoint) (pointer : String) :
    Except ResolveError (List Listed) := do
  let shared ← around.listParameters (parentPointer pointer) [] endpoint.item.parameters
  let listed ← around.listParameters pointer shared endpoint.operation.parameters
  pure (Entries.values listed)

/-- A parameter with its type; without a schema it is a string. -/
def resolveInput (around : Surroundings) (errand : Errand) (listed : Listed) :
    Resolving Input := do
  let (parameter, location) := listed
  let context := (Site.parameter errand.name parameter.name).context
  let (model, nullable) ← match parameter.valueSchema? with
    | some schema => do
      let model ← around.registry.resolve schema
        ⟨context, errand.scope, below location "schema"⟩
      pure (model, schema.admitsNull)
    | none => do
      let id ← Resolving.push (.primitive (.string none)) errand.scope
      pure (Resolved.value id, false)
  pure {
    name := parameter.name
    location := parameter.location
    model
    required := parameter.required || parameter.location == .path
    nullable
    description := parameter.description
    deprecated := parameter.deprecated.getD false }

/-- The parameters of an operation with their types. -/
def resolveInputs (around : Surroundings) (errand : Errand) (endpoint : Endpoint) :
    Resolving (List Input) := do
  let listed ← around.effectiveParameters endpoint errand.pointer
  listed.mapM (around.resolveInput errand)

/-- The location of the schema of a media type below `parent`. -/
def contentPointer (parent media : String) : String :=
  below (below (below parent "content") (escapeToken media)) "schema"

/-- The model of a media type's schema, if it has one. -/
def optionalModel (around : Surroundings) (media : MediaType) (pos : Position) :
    Resolving (Option Resolved) :=
  match media.schema with
  | some schema => some <$> around.registry.resolve schema pos
  | none => pure none

/-- The model of a media type's schema, or one for any value. -/
def modelOrFreeForm (around : Surroundings) (media : MediaType) (pos : Position) :
    Resolving Resolved :=
  match media.schema with
  | some schema => around.registry.resolve schema pos
  | none => Resolving.freeForm pos.scope

/-- The parts of a form: the properties of its object. -/
def formFields (arena : Arena) (model : Option Resolved) (media : MediaType) : List FormField :=
  match model.bind fun m => arena.model? m.id with
  | some (.object object) => object.properties.map fun property => {
      name := property.name
      model := property.model
      required := property.required
      contentType := (Entries.get? media.encoding property.name).bind Encoding.contentType }
  | _ => []

/-- A request body in one media type. -/
def resolvePayload (around : Surroundings) (name : String) (media : MediaType) (pos : Position) :
    Resolving Payload := do
  if Media.isJson name then
    pure (.json (← around.modelOrFreeForm media pos))
  else if Media.isType name "application/xml" then
    pure (.xml (← around.modelOrFreeForm media pos))
  else if Media.isType name "application/octet-stream" then
    pure .octetStream
  else if Media.isType name "multipart/form-data" then
    let model ← around.optionalModel media pos
    let arena ← get
    pure (.multipart model (formFields arena model media))
  else
    pure (.other (← around.optionalModel media pos))

/-- A request body in all its media types. -/
def resolveBody (around : Surroundings) (errand : Errand) (node : Referable RequestBody) :
    Resolving Bodies := do
  let location := below errand.pointer "requestBody"
  let body ← node.follow .requestBodies around.components.requestBodies location
  let types ← body.content.mapM fun (name, media) => do
    let payload ← around.resolvePayload name media
      ⟨(Site.requestBody errand.name).context, errand.scope, contentPointer location name⟩
    pure (name, (⟨payload, vendorExtensions media.extensions⟩ : Body))
  pure {
    required := body.required
    description := body.description
    types
    extensions := vendorExtensions body.extensions }

/-- The media type that a response is read in: the first JSON one, or the first. -/
def chosenContent (content : Entries MediaType) : Option (String × MediaType) :=
  match content.find? fun (name, _) => Media.isJson name with
  | some chosen => some chosen
  | none => content.head?

/-- What comes back under a key of `responses`; `primary` for the first. -/
def resolveReturn (around : Surroundings) (errand : Errand) (primary : Bool) (key : String)
    (node : Referable Response) : Resolving (Status × ReturnType) := do
  let location := below (below errand.pointer "responses") (escapeToken key)
  let some status := Status.parse key
    | throw (.schemaShape ("invalid response status " ++ key) location)
  let response ← node.follow .responses around.components.responses location
  let chosen := chosenContent response.content
  let model ← match chosen with
    | some (name, media) =>
      let context := (Site.response errand.name status primary).context
      around.optionalModel media ⟨context, errand.scope, contentPointer location name⟩
    | none => pure none
  pure (status, {
    model
    mediaType := chosen.map Prod.fst
    description := if response.description.isEmpty then none else some response.description
    extensions := vendorExtensions response.extensions })

/-- What comes back of an operation. Of two keys for one status the later one counts. -/
def resolveReturns (around : Surroundings) (errand : Errand) (responses : Responses) :
    Resolving Returns := do
  let types ← responses.entries.zipIdx.mapM fun ((key, node), index) =>
    around.resolveReturn errand (index == 0) key node
  pure {
    types := types.foldl (fun types (status, type) => Entries.set status type types) []
    extensions := vendorExtensions responses.extensions }

/-- The route of an operation. -/
def resolveRoute (around : Surroundings) (endpoint : Endpoint) : Resolving Route := do
  let operation := endpoint.operation
  let errand : Errand := {
    name := operationName around.naming endpoint.method endpoint.path operation
    scope := literalSegments endpoint.path
    pointer := endpoint.pointer }
  let input ← around.resolveInputs errand endpoint
  let body ← match operation.requestBody with
    | some node => around.resolveBody errand node
    | none => pure {}
  let returns ← around.resolveReturns errand operation.responses
  pure {
    operationId := errand.name
    method := endpoint.method
    path := endpoint.path
    summary := operation.summary
    description := operation.description
    tags := operation.tags
    deprecated := operation.deprecated.getD false
    body
    input
    returns
    extensions := vendorExtensions operation.extensions }

/-- The routes of operations in order. One that fails is left out, and what it added with it; the
components keep their models, as they were all resolved before. -/
def resolveRoutes (around : Surroundings) :
    List Endpoint → Arena → (List Route × Report) × Arena
  | [], arena => (([], []), arena)
  | endpoint :: rest, arena =>
    match Resolving.attempt (around.resolveRoute endpoint) arena with
    | (.ok route, arena) =>
      let ((routes, report), arena) := around.resolveRoutes rest arena
      ((route :: routes, report), arena)
    | (.error error, arena) =>
      let ((routes, report), arena) := around.resolveRoutes rest arena
      ((routes, ⟨endpoint.source, error⟩ :: report), arena)

end Surroundings

end ApiAtlas
