import ApiAtlas.Document.Basic

namespace ApiAtlas

/-- A member with an optional value. -/
def optionalMember (name : String) : Option Json → List (String × Json)
  | some value => [(name, value)]
  | none => []

/-- A member that is left out when its list is empty. -/
def listMember (name : String) : List Json → List (String × Json)
  | [] => []
  | items => [(name, .array items)]

/-- A member that is left out when its map is empty. -/
def mapMember (name : String) : List (String × Json) → List (String × Json)
  | [] => []
  | members => [(name, .object members)]

/-- The spelling of a type. -/
def SchemaType.name : SchemaType → String
  | .string => "string"
  | .number => "number"
  | .integer => "integer"
  | .boolean => "boolean"
  | .array => "array"
  | .object => "object"
  | .null => "null"

/-- The value of `type`. -/
def TypeSet.toJson : TypeSet → Json
  | .single t => .string t.name
  | .several ts => .array (ts.map fun t => .string t.name)

/-- A reference. -/
def referenceJson (path : String) : Json := .object [("$ref", .string path)]

/-- The value of `discriminator`. -/
def Discriminator.toJson (d : Discriminator) : Json :=
  .object (("propertyName", .string d.propertyName) ::
    mapMember "mapping" (d.mapping.map fun (key, target) => (key, .string target)))

mutual

/-- A schema or reference. -/
def SchemaNode.toJson : SchemaNode → Json
  | .ref path => referenceJson path
  | .inline {
      types, format, description, defaultValue, nullable, properties, required, additional, items,
      uniqueItems, allOf, oneOf, anyOf, discriminator, enumValues, constValue, readOnly, writeOnly,
      extensions } =>
    .object (
      optionalMember "type" (types.map TypeSet.toJson) ++
      optionalMember "format" (format.map .string) ++
      optionalMember "description" (description.map .string) ++
      optionalMember "default" defaultValue ++
      optionalMember "nullable" (nullable.map .bool) ++
      mapMember "properties" (schemaMembers properties) ++
      listMember "required" (required.map .string) ++
      optionalMember "additionalProperties" (additionalJson additional) ++
      optionalMember "items" (optionalSchemaJson items) ++
      optionalMember "uniqueItems" (uniqueItems.map .bool) ++
      listMember "allOf" (schemaItems allOf) ++
      listMember "oneOf" (schemaItems oneOf) ++
      listMember "anyOf" (schemaItems anyOf) ++
      optionalMember "discriminator" (discriminator.map Discriminator.toJson) ++
      optionalMember "enum" (enumValues.map .array) ++
      optionalMember "const" constValue ++
      optionalMember "readOnly" (readOnly.map .bool) ++
      optionalMember "writeOnly" (writeOnly.map .bool) ++
      extensions)

/-- The members of a map of schemas. -/
def schemaMembers : List (String × SchemaNode) → List (String × Json)
  | [] => []
  | (name, node) :: rest => (name, node.toJson) :: schemaMembers rest

/-- The items of a list of schemas. -/
def schemaItems : List SchemaNode → List Json
  | [] => []
  | node :: rest => node.toJson :: schemaItems rest

/-- The value of `items`. -/
def optionalSchemaJson : Option SchemaNode → Option Json
  | none => none
  | some node => some node.toJson

/-- The value of `additionalProperties`. -/
def additionalJson : Option (Additional SchemaNode) → Option Json
  | none => none
  | some (.allowed yes) => some (.bool yes)
  | some (.each node) => some node.toJson

end

/-- A reference, or the value in place. -/
def Referable.toJson {α : Type} (value : α → Json) : Referable α → Json
  | .ref path => referenceJson path
  | .inline a => value a

/-- Members of a map, each value written by `value`. -/
def membersOf {α : Type} (value : α → Json) (entries : Entries α) : List (String × Json) :=
  entries.map fun (key, a) => (key, value a)

/-- An entry of `encoding`. -/
def Encoding.toJson (encoding : Encoding) : Json :=
  .object (optionalMember "contentType" (encoding.contentType.map .string))

/-- An entry of `content`. -/
def MediaType.toJson (media : MediaType) : Json :=
  .object (
    optionalMember "schema" (optionalSchemaJson media.schema) ++
    mapMember "encoding" (membersOf Encoding.toJson media.encoding) ++
    media.extensions)

/-- The spelling of a location. -/
def ParameterLocation.name : ParameterLocation → String
  | .query => "query"
  | .header => "header"
  | .path => "path"
  | .cookie => "cookie"

/-- A parameter. -/
def Parameter.toJson (parameter : Parameter) : Json :=
  .object (
    [("name", .string parameter.name), ("in", .string parameter.location.name)] ++
    optionalMember "description" (parameter.description.map .string) ++
    [("required", .bool parameter.required)] ++
    optionalMember "deprecated" (parameter.deprecated.map .bool) ++
    optionalMember "schema" (optionalSchemaJson parameter.schema) ++
    mapMember "content" (membersOf MediaType.toJson parameter.content))

/-- A request body. -/
def RequestBody.toJson (body : RequestBody) : Json :=
  .object (
    optionalMember "description" (body.description.map .string) ++
    [("content", .object (membersOf MediaType.toJson body.content)),
      ("required", .bool body.required)] ++
    body.extensions)

/-- A response. -/
def Response.toJson (response : Response) : Json :=
  .object (
    ("description", .string response.description) ::
    mapMember "content" (membersOf MediaType.toJson response.content) ++
    response.extensions)

/-- The members of `responses`. -/
def Responses.members (responses : Responses) : List (String × Json) :=
  membersOf (Referable.toJson Response.toJson) responses.entries ++ responses.extensions

/-- An operation. -/
def Operation.toJson (operation : Operation) : Json :=
  .object (
    optionalMember "operationId" (operation.operationId.map .string) ++
    optionalMember "summary" (operation.summary.map .string) ++
    optionalMember "description" (operation.description.map .string) ++
    listMember "tags" (operation.tags.map .string) ++
    listMember "parameters" (operation.parameters.map (Referable.toJson Parameter.toJson)) ++
    optionalMember "requestBody"
      (operation.requestBody.map (Referable.toJson RequestBody.toJson)) ++
    mapMember "responses" operation.responses.members ++
    optionalMember "deprecated" (operation.deprecated.map .bool) ++
    operation.extensions)

/-- A path item. -/
def PathItem.toJson (item : PathItem) : Json :=
  .object (
    optionalMember "summary" (item.summary.map .string) ++
    optionalMember "description" (item.description.map .string) ++
    listMember "parameters" (item.parameters.map (Referable.toJson Parameter.toJson)) ++
    optionalMember "get" (item.get.map Operation.toJson) ++
    optionalMember "post" (item.post.map Operation.toJson) ++
    optionalMember "put" (item.put.map Operation.toJson) ++
    optionalMember "delete" (item.delete.map Operation.toJson) ++
    optionalMember "patch" (item.patch.map Operation.toJson) ++
    optionalMember "options" (item.options.map Operation.toJson) ++
    optionalMember "head" (item.head.map Operation.toJson) ++
    optionalMember "trace" (item.trace.map Operation.toJson))

/-- The value of `components`. -/
def Components.toJson (components : Components) : Json :=
  .object (
    mapMember "schemas" (schemaMembers components.schemas) ++
    mapMember "responses"
      (membersOf (Referable.toJson Response.toJson) components.responses) ++
    mapMember "parameters"
      (membersOf (Referable.toJson Parameter.toJson) components.parameters) ++
    mapMember "requestBodies"
      (membersOf (Referable.toJson RequestBody.toJson) components.requestBodies))

/-- The value of `info`. -/
def Info.toJson (info : Info) : Json :=
  .object (
    ("title", .string info.title) ::
    optionalMember "description" (info.description.map .string) ++
    [("version", .string info.version)])

/-- An entry of `servers`. -/
def Server.toJson (server : Server) : Json :=
  .object (
    ("url", .string server.url) ::
    optionalMember "description" (server.description.map .string))

/-- A document. -/
def Document.toJson (document : Document) : Json :=
  .object (
    [("openapi", .string document.openapi), ("info", document.info.toJson)] ++
    listMember "servers" (document.servers.map Server.toJson) ++
    mapMember "paths" (membersOf PathItem.toJson document.paths) ++
    optionalMember "components" (document.components.map Components.toJson))

/-- A document as JSON text without blanks. -/
def Document.toText (document : Document) : String := document.toJson.toText

end ApiAtlas
