import ApiAtlas.Document.Printer
import ApiAtlas.Json.Reader
import ApiAtlas.Source.Reach

namespace ApiAtlas

/-- All the types. -/
def SchemaType.all : List SchemaType :=
  [.string, .number, .integer, .boolean, .array, .object, .null]

/-- The type of a name. -/
def SchemaType.ofName? (name : String) : Option SchemaType :=
  SchemaType.all.find? (·.name == name)

/-- A type. -/
def SchemaType.ofDatum? (datum : Datum) : Option SchemaType :=
  (datum.choice? (SchemaType.all.map SchemaType.name)).bind SchemaType.ofName?

/-- The value of `type`. -/
def TypeSet.ofDatum? (datum : Datum) : Option TypeSet :=
  match SchemaType.ofDatum? datum with
  | some type => some (.single type)
  | none => (datum.listOf SchemaType.ofDatum?).map .several

/-- The fields of a discriminator. -/
def Discriminator.fields : List Field := [⟨"propertyName", false⟩, ⟨"mapping", true⟩]

/-- The value of `discriminator`. -/
def Discriminator.ofDatum? (datum : Datum) : Option Discriminator := do
  let fields ← datum.fields? Discriminator.fields
  pure {
    propertyName := ← Fields.demand fields "propertyName" Datum.string?
    mapping := ← Fields.withDefault fields "mapping" (Datum.entriesOf Datum.string?) [] }

/-- The value of `additionalProperties`, its schema read by `node`. -/
def Additional.ofDatum? {σ : Type} (node : Datum → Option σ) (datum : Datum) :
    Option (Additional σ) :=
  match datum with
  | .bool yes => some (.allowed yes)
  | datum => (node datum).map .each

/-- The keywords that give a schema its shape. -/
def SchemaOf.keywords : List String :=
  ["type", "format", "description", "default", "nullable", "properties", "required",
    "additionalProperties", "items", "uniqueItems", "allOf", "oneOf", "anyOf", "discriminator",
    "enum", "const", "readOnly", "writeOnly"]

/-- A schema, the nodes below it read by `node`. -/
def SchemaOf.ofDatum? {σ : Type} (node : Datum → Option σ) (datum : Datum) :
    Option (SchemaOf σ) := do
  let fields ← datum.members?
  let optional {β : Type} (name : String) (read : Datum → Option β) : Option (Option β) :=
    Fields.optional fields name Datum.absent? read
  let list {β : Type} (name : String) (read : Datum → Option β) : Option (List β) :=
    Fields.withDefault fields name (Datum.listOf read) []
  pure {
    types := ← optional "type" TypeSet.ofDatum?
    format := ← optional "format" Datum.string?
    description := ← optional "description" Datum.string?
    defaultValue := ← optional "default" Datum.json?
    nullable := ← optional "nullable" Datum.bool?
    properties := ← Fields.withDefault fields "properties" (Datum.entriesOf node) []
    required := ← list "required" Datum.string?
    additional := ← optional "additionalProperties" (Additional.ofDatum? node)
    items := ← optional "items" node
    uniqueItems := ← optional "uniqueItems" Datum.bool?
    allOf := ← list "allOf" node
    oneOf := ← list "oneOf" node
    anyOf := ← list "anyOf" node
    discriminator := ← optional "discriminator" Discriminator.ofDatum?
    enumValues := ← optional "enum" (Datum.listOf Datum.json?)
    constValue := ← optional "const" Datum.json?
    readOnly := ← optional "readOnly" Datum.bool?
    writeOnly := ← optional "writeOnly" Datum.bool?
    extensions := ← readEntries Datum.json? (Fields.others fields SchemaOf.keywords) }

/-- A schema or reference nested less than `depth` deep. -/
def SchemaNode.ofDatumWithin? : Nat → Datum → Option SchemaNode
  | 0, _ => none
  | depth + 1, datum =>
    match datum.reference? with
    | some path => some (.ref path)
    | none => (SchemaOf.ofDatum? (ofDatumWithin? depth) datum).map .inline

/-- A schema or reference. -/
def SchemaNode.ofDatum? (datum : Datum) : Option SchemaNode :=
  ofDatumWithin? datum.depth datum

/-- A reference, or a value in place. -/
def Referable.ofDatum? {α : Type} (read : Datum → Option α) (datum : Datum) :
    Option (Referable α) :=
  match datum.reference? with
  | some path => some (.ref path)
  | none => (read datum).map .inline

/-- An entry of `encoding`. -/
def Encoding.ofDatum? (datum : Datum) : Option Encoding := do
  let fields ← datum.fields? [⟨"contentType", false⟩]
  pure { contentType := ← Fields.optional fields "contentType" Datum.absent? Datum.string? }

/-- An entry of `content`. -/
def MediaType.ofDatum? (datum : Datum) : Option MediaType := do
  let fields ← datum.members?
  pure {
    schema := ← Fields.optional fields "schema" Datum.absent? SchemaNode.ofDatum?
    encoding := ← Fields.withDefault fields "encoding" (Datum.entriesOf Encoding.ofDatum?) []
    extensions := ← readEntries Datum.json? (Fields.others fields ["schema", "encoding"]) }

/-- All the locations. -/
def ParameterLocation.all : List ParameterLocation := [.query, .header, .path, .cookie]

/-- A location. -/
def ParameterLocation.ofDatum? (datum : Datum) : Option ParameterLocation :=
  (datum.choice? (ParameterLocation.all.map ParameterLocation.name)).bind fun name =>
    ParameterLocation.all.find? (·.name == name)

/-- The fields of a parameter. -/
def Parameter.fields : List Field :=
  [⟨"name", false⟩, ⟨"in", false⟩, ⟨"description", false⟩, ⟨"required", true⟩,
    ⟨"deprecated", false⟩, ⟨"schema", false⟩, ⟨"content", true⟩]

/-- A parameter. -/
def Parameter.ofDatum? (datum : Datum) : Option Parameter := do
  let fields ← datum.fields? Parameter.fields
  pure {
    name := ← Fields.demand fields "name" Datum.string?
    location := ← Fields.demand fields "in" ParameterLocation.ofDatum?
    description := ← Fields.optional fields "description" Datum.absent? Datum.string?
    required := ← Fields.withDefault fields "required" Datum.bool? false
    deprecated := ← Fields.optional fields "deprecated" Datum.absent? Datum.bool?
    schema := ← Fields.optional fields "schema" Datum.absent? SchemaNode.ofDatum?
    content := ← Fields.withDefault fields "content" (Datum.entriesOf MediaType.ofDatum?) [] }

/-- A request body. -/
def RequestBody.ofDatum? (datum : Datum) : Option RequestBody := do
  let fields ← datum.members?
  pure {
    description := ← Fields.optional fields "description" Datum.absent? Datum.string?
    content := ← Fields.demand fields "content" (Datum.entriesOf MediaType.ofDatum?)
    required := ← Fields.withDefault fields "required" Datum.bool? false
    extensions := ← readEntries Datum.json?
      (Fields.others fields ["description", "content", "required"]) }

/-- A response. -/
def Response.ofDatum? (datum : Datum) : Option Response := do
  let fields ← datum.members?
  pure {
    description := ← Fields.withDefault fields "description" Datum.string? ""
    content := ← Fields.withDefault fields "content" (Datum.entriesOf MediaType.ofDatum?) []
    extensions := ← readEntries Datum.json? (Fields.others fields ["description", "content"]) }

/-- The members of `responses`, of which those that start with `x-` are extensions. -/
def Responses.ofEntries? : Entries Json → Option Responses
  | [] => some {}
  | (key, value) :: rest => do
    let others ← ofEntries? rest
    if ['x', '-'].isPrefixOf key.toList then
      pure { others with extensions := (key, value) :: others.extensions }
    else
      let response ← Referable.ofDatum? Response.ofDatum? value.datum
      pure { others with entries := (key, response) :: others.entries }

/-- The value of `responses`. It is read as JSON, which puts the members inside each response in
ascending order of their keys. -/
def Responses.ofNode? (node : Node) : Option Responses :=
  (node.entriesOf Node.json?).bind Responses.ofEntries?

/-- Read a node by way of a value settled by its text. -/
def Node.viaDatum {β : Type} (read : Datum → Option β) (node : Node) : Option β :=
  node.datum?.bind read

/-- The declared members of an operation. -/
def Operation.members : List String :=
  ["operationId", "summary", "description", "tags", "parameters", "requestBody", "responses",
    "deprecated"]

/-- An operation. -/
def Operation.ofNode? (node : Node) : Option Operation := do
  let fields ← node.members?
  let optional {β : Type} (name : String) (read : Node → Option β) : Option (Option β) :=
    Fields.optional fields name Node.absent? read
  pure {
    operationId := ← optional "operationId" Node.text?
    summary := ← optional "summary" Node.text?
    description := ← optional "description" Node.text?
    tags := ← Fields.withDefault fields "tags" (Node.listOf Node.text?) []
    parameters := ← Fields.withDefault fields "parameters"
      (Node.listOf (Node.viaDatum (Referable.ofDatum? Parameter.ofDatum?))) []
    requestBody := ← optional "requestBody"
      (Node.viaDatum (Referable.ofDatum? RequestBody.ofDatum?))
    responses := ← Fields.withDefault fields "responses" Responses.ofNode? {}
    deprecated := ← optional "deprecated" Node.truth?
    extensions := ← readEntries (Node.viaDatum Datum.json?)
      (Fields.others fields Operation.members) }

/-- The fields of a path item. -/
def PathItem.fields : List Field :=
  [⟨"summary", false⟩, ⟨"description", false⟩, ⟨"parameters", true⟩, ⟨"get", false⟩,
    ⟨"post", false⟩, ⟨"put", false⟩, ⟨"delete", false⟩, ⟨"patch", false⟩, ⟨"options", false⟩,
    ⟨"head", false⟩, ⟨"trace", false⟩]

/-- A path item. -/
def PathItem.ofNode? (node : Node) : Option PathItem := do
  let fields ← node.fields? PathItem.fields
  let operation (name : String) : Option (Option Operation) :=
    Fields.optional fields name Node.absent? Operation.ofNode?
  pure {
    summary := ← Fields.optional fields "summary" Node.absent? Node.text?
    description := ← Fields.optional fields "description" Node.absent? Node.text?
    parameters := ← Fields.withDefault fields "parameters"
      (Node.listOf (Node.viaDatum (Referable.ofDatum? Parameter.ofDatum?))) []
    get := ← operation "get"
    post := ← operation "post"
    put := ← operation "put"
    delete := ← operation "delete"
    patch := ← operation "patch"
    options := ← operation "options"
    head := ← operation "head"
    trace := ← operation "trace" }

/-- The fields of `components`. -/
def Components.fields : List Field :=
  [⟨"schemas", true⟩, ⟨"responses", true⟩, ⟨"parameters", true⟩, ⟨"requestBodies", true⟩]

/-- The value of `components`. -/
def Components.ofNode? (node : Node) : Option Components := do
  let fields ← node.fields? Components.fields
  let section? {β : Type} (name : String) (read : Datum → Option β) : Option (Entries β) :=
    Fields.withDefault fields name (Node.entriesOf (Node.viaDatum read)) []
  pure {
    schemas := ← section? "schemas" SchemaNode.ofDatum?
    responses := ← section? "responses" (Referable.ofDatum? Response.ofDatum?)
    parameters := ← section? "parameters" (Referable.ofDatum? Parameter.ofDatum?)
    requestBodies := ← section? "requestBodies" (Referable.ofDatum? RequestBody.ofDatum?) }

/-- The fields of `info`. -/
def Info.fields : List Field := [⟨"title", false⟩, ⟨"description", false⟩, ⟨"version", false⟩]

/-- The value of `info`. -/
def Info.ofNode? (node : Node) : Option Info := do
  let fields ← node.fields? Info.fields
  pure {
    title := ← Fields.demand fields "title" Node.text?
    description := ← Fields.optional fields "description" Node.absent? Node.text?
    version := ← Fields.demand fields "version" Node.text? }

/-- The fields of a server. -/
def Server.fields : List Field := [⟨"url", false⟩, ⟨"description", false⟩]

/-- An entry of `servers`. -/
def Server.ofNode? (node : Node) : Option Server := do
  let fields ← node.fields? Server.fields
  pure {
    url := ← Fields.demand fields "url" Node.text?
    description := ← Fields.optional fields "description" Node.absent? Node.text? }

/-- The fields of a document. -/
def Document.fields : List Field :=
  [⟨"openapi", false⟩, ⟨"info", false⟩, ⟨"servers", true⟩, ⟨"paths", true⟩, ⟨"components", false⟩]

/-- A document of any version. -/
def Document.ofNode? (node : Node) : Option Document := do
  let fields ← node.fields? Document.fields
  pure {
    openapi := ← Fields.demand fields "openapi" Node.text?
    info := ← Fields.demand fields "info" Info.ofNode?
    servers := ← Fields.withDefault fields "servers" (Node.listOf Server.ofNode?) []
    paths := ← Fields.withDefault fields "paths" (Node.entriesOf PathItem.ofNode?) []
    components := ← Fields.optional fields "components" Node.absent? Components.ofNode? }

/-- How far reading goes into a document. An operation and what is below it keep their extensions,
so that they are read whole. -/
def Document.reach : Reach :=
  .record [
    ("openapi", .whole),
    ("info", .declared Info.fields),
    ("servers", .items (.declared Server.fields)),
    ("paths", .entries (.declared PathItem.fields)),
    ("components", .declared Components.fields)]

/-- The formats a document may be written in. -/
inductive Format
  | json
  | yaml
deriving Repr, DecidableEq

/-- Why a text is not taken as a document. -/
inductive ParseError
  | malformed (format : Format)
  | unsupportedVersion (version : String)
deriving Repr, DecidableEq

/-- The document of a text's node; only versions 3 are supported. -/
def Document.accept (format : Format) (node : Option Node) : Except ParseError Document :=
  match node.bind Document.ofNode? with
  | none => .error (.malformed format)
  | some document =>
    if ['3', '.'].isPrefixOf document.openapi.toList then .ok document
    else .error (.unsupportedVersion document.openapi)

/-- Read a document from JSON. -/
def Document.ofJson (text : String) : Except ParseError Document :=
  Document.accept .json (Json.readNode text)

end ApiAtlas
