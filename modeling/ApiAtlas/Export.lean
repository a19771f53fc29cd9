import ApiAtlas.Atlas
import ApiAtlas.Document.Printer

namespace ApiAtlas

/-- Plain data. Records have fixed fields, maps and tables have the keys of a document; a tag says
which alternative its payload is of. -/
inductive PlainData
  | null
  | bool (b : Bool)
  | int (z : Int)
  | float (x : Binary64)
  | string (s : String)
  | list (items : List PlainData)
  | record (fields : List (String × PlainData))
  | map (entries : List (String × PlainData))
  | table (entries : List (Nat × PlainData))
  | tagged (tag : String) (payload : PlainData)
deriving Repr, Inhabited

namespace PlainData

/-- An optional text. -/
def ofString? : Option String → PlainData
  | some s => .string s
  | none => .null

mutual

/-- JSON as plain data. -/
def ofJson : Json → PlainData
  | .null => .null
  | .bool b => .bool b
  | .int z => .int z
  | .float x => .float x
  | .string s => .string s
  | .array items => .list (ofItems items)
  | .object members => .record (ofMembers members)

/-- The items as plain data. -/
def ofItems : List Json → List PlainData
  | [] => []
  | v :: vs => ofJson v :: ofItems vs

/-- The members as plain data. -/
def ofMembers : List (String × Json) → List (String × PlainData)
  | [] => []
  | (k, v) :: ms => (k, ofJson v) :: ofMembers ms

end

/-- Extensions as a map. -/
def ofExtensions (extensions : Entries Json) : PlainData :=
  .map (extensions.map fun (key, value) => (key, ofJson value))

mutual

/-- Plain data as JSON. A tag is the only member of an object around its payload. -/
def toJson : PlainData → Json
  | .null => .null
  | .bool b => .bool b
  | .int z => .int z
  | .float x => .float x
  | .string s => .string s
  | .list items => .array (jsonItems items)
  | .record fields => .object (jsonMembers fields)
  | .map entries => .object (jsonMembers entries)
  | .table entries => .object (jsonRows entries)
  | .tagged tag payload => .object [(tag, payload.toJson)]

/-- The items as JSON. -/
def jsonItems : List PlainData → List Json
  | [] => []
  | t :: ts => t.toJson :: jsonItems ts

/-- The members as JSON. -/
def jsonMembers : List (String × PlainData) → List (String × Json)
  | [] => []
  | (k, t) :: ts => (k, t.toJson) :: jsonMembers ts

/-- The rows of a table as JSON. -/
def jsonRows : List (Nat × PlainData) → List (String × Json)
  | [] => []
  | (n, t) :: ts => (toString n, t.toJson) :: jsonRows ts

end

end PlainData

/-- A context. -/
def Context.plain : Context → PlainData
  | .named name => .tagged "named" (.string name)
  | .nested segment parent =>
    .tagged "nested" (.record [("segment", .string segment), ("parent", parent.plain)])

/-- A reference to a model. -/
def Resolved.plain : Resolved → PlainData
  | .ref name id => .tagged "ref" (.record [("name", .string name), ("value", .int id)])
  | .value id => .tagged "value" (.int id)

/-- An optional reference to a model. -/
def PlainData.ofResolved? : Option Resolved → PlainData
  | some model => model.plain
  | none => .null

/-- The name of a kind. -/
def PrimitiveKind.name : PrimitiveKind → String
  | .int => "int"
  | .double => "double"
  | .boolean => "boolean"
  | .string => "string"

/-- The fields of a plain value. -/
def Primitive.fields (primitive : Primitive) : List (String × PlainData) :=
  let (kind, fallback) : PrimitiveKind × PlainData := match primitive with
    | .int fallback => (.int, fallback.elim .null .int)
    | .double fallback => (.double, fallback.elim .null .float)
    | .boolean fallback => (.boolean, fallback.elim .null .bool)
    | .string fallback => (.string, .ofString? fallback)
  [("kind", .string kind.name), ("default", fallback)]

/-- The fields of a collection. -/
def Collection.fields (collection : Collection) : List (String × PlainData) :=
  let kind := match collection with
    | .list _ => "list"
    | .set _ => "set"
    | .map _ => "map"
  [("kind", .string kind), ("element", collection.element.plain)]

/-- A property. -/
def Property.plain (property : Property) : PlainData :=
  .record [("name", .string property.name), ("model", property.model.plain),
    ("required", .bool property.required), ("nullable", .bool property.nullable),
    ("description", .ofString? property.description), ("read_only", .bool property.readOnly),
    ("write_only", .bool property.writeOnly)]

/-- A case of a union. -/
def Case.plain (case : Case) : PlainData :=
  .record [("label", .string case.label), ("context", case.context.plain),
    ("model", case.model.plain)]

/-- The fields of an enum. -/
def EnumModel.fields (model : EnumModel) : List (String × PlainData) :=
  let head := match model.kind with
    | .closed carrier => [("kind", PlainData.string "closed"), ("context", model.context.plain),
        ("inner", .string carrier.name)]
    | .extensible => [("kind", .string "open"), ("context", model.context.plain)]
  head ++ [("values", .list (model.values.map .string)), ("default", .ofString? model.fallback),
    ("description", .ofString? model.description)]

/-- A model. -/
def Model.plain (model : Model) : PlainData :=
  let (type, fields) : String × List (String × PlainData) := match model with
    | .primitive p => ("primitive", p.fields)
    | .binary => ("binary", [])
    | .freeForm => ("free_form_json", [])
    | .collection c => ("collection", c.fields)
    | .object o => ("object", [("context", o.context.plain),
        ("description", .ofString? o.description),
        ("properties", .list (o.properties.map Property.plain)),
        ("additional_properties", .bool o.additional)])
    | .union u => ("union", [("context", u.context.plain),
        ("description", .ofString? u.description), ("cases", .list (u.cases.map Case.plain)),
        ("discriminator", .ofString? u.discriminator), ("default", .ofString? u.fallback)])
    | .enum e => ("enum", e.fields)
  .record (("type", .string type) :: fields)

/-- The models and the components among them. -/
def Models.plain (models : Models) : PlainData :=
  .record [("nodes", .list (models.nodes.map Model.plain)),
    ("components", .map (models.components.map fun (name, id) => (name, .int id)))]

/-- A part of a form. -/
def FormField.plain (field : FormField) : PlainData :=
  .record [("name", .string field.name), ("model", field.model.plain),
    ("required", .bool field.required), ("content_type", .ofString? field.contentType)]

/-- A request body in one media type. -/
def Body.plain (body : Body) : PlainData :=
  let (kind, fields) : String × List (String × PlainData) := match body.payload with
    | .json model => ("json", [("model", model.plain)])
    | .xml model => ("xml", [("model", model.plain)])
    | .octetStream => ("octet_stream", [])
    | .multipart model fields => ("multipart", [("model", .ofResolved? model),
        ("fields", .list (fields.map FormField.plain))])
    | .other model => ("other", [("model", .ofResolved? model)])
  .record (("kind", .string kind) :: fields ++ [("extensions", .ofExtensions body.extensions)])

/-- A request body. -/
def Bodies.plain (bodies : Bodies) : PlainData :=
  .record [("required", .bool bodies.required), ("description", .ofString? bodies.description),
    ("types", .map (bodies.types.map fun (media, body) => (media, body.plain))),
    ("extensions", .ofExtensions bodies.extensions)]

/-- A parameter. -/
def Input.plain (input : Input) : PlainData :=
  .record [("name", .string input.name), ("location", .string input.location.name),
    ("model", input.model.plain), ("required", .bool input.required),
    ("nullable", .bool input.nullable), ("description", .ofString? input.description),
    ("deprecated", .bool input.deprecated)]

/-- What comes back under one status. -/
def ReturnType.plain (type : ReturnType) : PlainData :=
  .record [("model", .ofResolved? type.model), ("media_type", .ofString? type.mediaType),
    ("description", .ofString? type.description), ("extensions", .ofExtensions type.extensions)]

/-- What comes back. -/
def Returns.plain (returns : Returns) : PlainData :=
  .record [("types", .map (returns.types.map fun (status, type) => (status.text, type.plain))),
    ("extensions", .ofExtensions returns.extensions)]

/-- A route. -/
def Route.plain (route : Route) : PlainData :=
  .record [("operation_id", .string route.operationId), ("method", .string route.method.name),
    ("path", .string route.path), ("summary", .ofString? route.summary),
    ("description", .ofString? route.description), ("tags", .list (route.tags.map .string)),
    ("deprecated", .bool route.deprecated), ("body", route.body.plain),
    ("input", .list (route.input.map Input.plain)), ("returns", route.returns.plain),
    ("extensions", .ofExtensions route.extensions)]

mutual

/-- A group, its items written by `item`. -/
def Group.plain {α : Type} (item : α → PlainData) : Group α → PlainData
  | .mk name items nested =>
    .record [("name", .string name), ("routes", .list (items.map item)),
      ("nested", .list (groupsPlain item nested))]

/-- Groups in order. -/
def groupsPlain {α : Type} (item : α → PlainData) : List (Group α) → List PlainData
  | [] => []
  | group :: rest => group.plain item :: groupsPlain item rest

end

/-- A tree of groups. -/
def Root.plain {α : Type} (item : α → PlainData) (root : Root α) : PlainData :=
  .record [("name", .string root.name), ("routes", .list (root.items.map item)),
    ("apis", .list (groupsPlain item root.groups))]

/-- The name of a model. -/
def NameEntry.plain (entry : NameEntry) : PlainData :=
  .record ([("context", entry.context.plain)] ++
    (if entry.scope.isEmpty then [] else [("scope", .list (entry.scope.map .string))]) ++
    [("identifier", .string entry.identifier)])

/-- The names of the models. -/
def NameTable.plain (table : NameTable) : PlainData :=
  .table (table.map fun (id, entry) => (id, entry.plain))

/-- A unit. -/
def Source.plain : Source → PlainData
  | .component name => .tagged "component" (.string name)
  | .route method path =>
    .tagged "route" (.record [("method", .string method.name), ("path", .string path)])

/-- An error. -/
def ResolveError.plain (error : ResolveError) : PlainData :=
  let (kind, name, value) := match error with
    | .unresolvedRef reference _ => ("unresolved_ref", "reference", reference)
    | .invalidRefFormat reference _ => ("invalid_ref_format", "reference", reference)
    | .circularRef chain _ => ("circular_ref", "chain", ResolveError.chainText chain)
    | .failedRef reference _ => ("failed_ref", "reference", reference)
    | .schemaShape reason _ => ("schema_shape", "reason", reason)
  .record [("kind", .string kind), (name, .string value), ("at", .string error.location)]

/-- The report. -/
def Report.plain (report : Report) : PlainData :=
  .list (report.map fun entry =>
    .record [("source", entry.source.plain), ("error", entry.error.plain)])

/-- What a document says of itself. -/
def Info.plain (info : Info) : PlainData :=
  .record [("title", .string info.title), ("description", .ofString? info.description),
    ("version", .string info.version)]

/-- An address where the API is served. -/
def Server.plain (server : Server) : PlainData :=
  .record [("url", .string server.url), ("description", .ofString? server.description)]

/-- The fields of an atlas. -/
def Atlas.fields (atlas : Atlas) : List (String × PlainData) :=
  [("info", atlas.info.plain), ("servers", .list (atlas.servers.map Server.plain)),
    ("root", atlas.root.plain Route.plain), ("models", atlas.models.plain),
    ("names", atlas.names.plain), ("report", atlas.report.plain)]

/-- An atlas. -/
def Atlas.plain (atlas : Atlas) : PlainData := .record atlas.fields

end ApiAtlas
