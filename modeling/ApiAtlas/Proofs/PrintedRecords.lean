import ApiAtlas.Document.Printer

namespace ApiAtlas

/-- Names, each with its value if it has one. -/
abbrev Table := List (String × Option Json)

namespace Table

/-- The names in order. -/
def names (table : Table) : List String := table.map Prod.fst

/-- The members that have a value. -/
def members : Table → List (String × Json)
  | [] => []
  | (name, value) :: rest => optionalMember name value ++ members rest

theorem mem_members {table : Table} {name : String} {v : Json} :
    (name, v) ∈ table.members ↔ (name, some v) ∈ table := by
  induction table with
  | nil => simp [members]
  | cons row rest ih =>
    obtain ⟨other, value⟩ := row
    cases value <;> simp [members, optionalMember, ih]

end Table

/-- An array that is left out when it is empty. -/
def Json.arrayIfAny : List Json → Option Json
  | [] => none
  | items => some (.array items)

/-- An object that is left out when it is empty. -/
def Json.objectIfAny : List (String × Json) → Option Json
  | [] => none
  | members => some (.object members)

theorem optionalMember_some (name : String) (v : Json) :
    optionalMember name (some v) = [(name, v)] := rfl

theorem listMember_eq (name : String) (items : List Json) :
    listMember name items = optionalMember name (Json.arrayIfAny items) := by
  cases items <;> rfl

theorem mapMember_eq (name : String) (members : List (String × Json)) :
    mapMember name members = optionalMember name (Json.objectIfAny members) := by
  cases members <;> rfl

section
variable {σ : Type}

theorem schemaMembers_eq (entries : List (String × SchemaNode)) :
    schemaMembers entries = membersOf SchemaNode.toJson entries := by
  induction entries with
  | nil => rfl
  | cons entry rest ih => rw [schemaMembers, ih]; rfl

theorem schemaItems_eq (items : List SchemaNode) :
    schemaItems items = items.map SchemaNode.toJson := by
  induction items with
  | nil => rfl
  | cons node rest ih => rw [schemaItems, ih, List.map_cons]

theorem optionalSchemaJson_eq (node : Option SchemaNode) :
    optionalSchemaJson node = node.map SchemaNode.toJson := by
  cases node <;> rfl

/-- The value of `additionalProperties`, its schema written by `node`. -/
def Additional.toJson (node : σ → Json) : Additional σ → Json
  | .allowed yes => .bool yes
  | .each schema => node schema

theorem additionalJson_eq (additional : Option (Additional SchemaNode)) :
    additionalJson additional = additional.map (Additional.toJson SchemaNode.toJson) := by
  rcases additional with _ | _ | _ <;> rfl

/-- The table of a discriminator. -/
def Discriminator.table (d : Discriminator) : Table :=
  [("propertyName", some (.string d.propertyName)),
    ("mapping", Json.objectIfAny (membersOf Json.string d.mapping))]

theorem Discriminator.toJson_eq (d : Discriminator) : d.toJson = .object d.table.members := by
  simp [toJson, table, Table.members, optionalMember_some, mapMember_eq, membersOf]

/-- The table of a schema, the nodes below it written by `node`. -/
def SchemaOf.table (node : σ → Json) (schema : SchemaOf σ) : Table :=
  [("type", schema.types.map TypeSet.toJson),
    ("format", schema.format.map .string),
    ("description", schema.description.map .string),
    ("default", schema.defaultValue),
    ("nullable", schema.nullable.map .bool),
    ("properties", Json.objectIfAny (membersOf node schema.properties)),
    ("required", Json.arrayIfAny (schema.required.map .string)),
    ("additionalProperties", schema.additional.map (Additional.toJson node)),
    ("items", schema.items.map node),
    ("uniqueItems", schema.uniqueItems.map .bool),
    ("allOf", Json.arrayIfAny (schema.allOf.map node)),
    ("oneOf", Json.arrayIfAny (schema.oneOf.map node)),
    ("anyOf", Json.arrayIfAny (schema.anyOf.map node)),
    ("discriminator", schema.discriminator.map Discriminator.toJson),
    ("enum", schema.enumValues.map .array),
    ("const", schema.constValue),
    ("readOnly", schema.readOnly.map .bool),
    ("writeOnly", schema.writeOnly.map .bool)]

/-- A schema, the nodes below it written by `node`. -/
def SchemaOf.toJson (node : σ → Json) (schema : SchemaOf σ) : Json :=
  .object ((schema.table node).members ++ schema.extensions)

theorem SchemaNode.toJson_inline (schema : Schema) :
    (SchemaNode.inline schema).toJson = schema.toJson SchemaNode.toJson := by
  cases schema
  simp [toJson, SchemaOf.toJson, SchemaOf.table, Table.members, listMember_eq, mapMember_eq,
    schemaMembers_eq, schemaItems_eq, optionalSchemaJson_eq, additionalJson_eq]

end

/-- The table of an entry of `encoding`. -/
def Encoding.table (encoding : Encoding) : Table :=
  [("contentType", encoding.contentType.map .string)]

theorem Encoding.toJson_eq (encoding : Encoding) :
    encoding.toJson = .object encoding.table.members := by
  simp [toJson, table, Table.members]

/-- The table of an entry of `content`. -/
def MediaType.table (media : MediaType) : Table :=
  [("schema", media.schema.map SchemaNode.toJson),
    ("encoding", Json.objectIfAny (membersOf Encoding.toJson media.encoding))]

theorem MediaType.toJson_eq (media : MediaType) :
    media.toJson = .object (media.table.members ++ media.extensions) := by
  simp [toJson, table, Table.members, mapMember_eq, optionalSchemaJson_eq]

/-- The table of a parameter. -/
def Parameter.table (parameter : Parameter) : Table :=
  [("name", some (.string parameter.name)),
    ("in", some (.string parameter.location.name)),
    ("description", parameter.description.map .string),
    ("required", some (.bool parameter.required)),
    ("deprecated", parameter.deprecated.map .bool),
    ("schema", parameter.schema.map SchemaNode.toJson),
    ("content", Json.objectIfAny (membersOf MediaType.toJson parameter.content))]

theorem Parameter.toJson_eq (parameter : Parameter) :
    parameter.toJson = .object parameter.table.members := by
  simp [toJson, table, Table.members, optionalMember_some, mapMember_eq, optionalSchemaJson_eq]

/-- The table of a request body. -/
def RequestBody.table (body : RequestBody) : Table :=
  [("description", body.description.map .string),
    ("content", some (.object (membersOf MediaType.toJson body.content))),
    ("required", some (.bool body.required))]

theorem RequestBody.toJson_eq (body : RequestBody) :
    body.toJson = .object (body.table.members ++ body.extensions) := by
  simp [toJson, table, Table.members, optionalMember_some]

/-- The table of a response. -/
def Response.table (response : Response) : Table :=
  [("description", some (.string response.description)),
    ("content", Json.objectIfAny (membersOf MediaType.toJson response.content))]

theorem Response.toJson_eq (response : Response) :
    response.toJson = .object (response.table.members ++ response.extensions) := by
  simp [toJson, table, Table.members, optionalMember_some, mapMember_eq]

/-- The table of an operation. -/
def Operation.table (operation : Operation) : Table :=
  [("operationId", operation.operationId.map .string),
    ("summary", operation.summary.map .string),
    ("description", operation.description.map .string),
    ("tags", Json.arrayIfAny (operation.tags.map .string)),
    ("parameters", Json.arrayIfAny (operation.parameters.map (Referable.toJson Parameter.toJson))),
    ("requestBody", operation.requestBody.map (Referable.toJson RequestBody.toJson)),
    ("responses", Json.objectIfAny operation.responses.members),
    ("deprecated", operation.deprecated.map .bool)]

theorem Operation.toJson_eq (operation : Operation) :
    operation.toJson = .object (operation.table.members ++ operation.extensions) := by
  simp [toJson, table, Table.members, listMember_eq, mapMember_eq]

/-- The table of a path item. -/
def PathItem.table (item : PathItem) : Table :=
  [("summary", item.summary.map .string),
    ("description", item.description.map .string),
    ("parameters", Json.arrayIfAny (item.parameters.map (Referable.toJson Parameter.toJson))),
    ("get", item.get.map Operation.toJson),
    ("post", item.post.map Operation.toJson),
    ("put", item.put.map Operation.toJson),
    ("delete", item.delete.map Operation.toJson),
    ("patch", item.patch.map Operation.toJson),
    ("options", item.options.map Operation.toJson),
    ("head", item.head.map Operation.toJson),
    ("trace", item.trace.map Operation.toJson)]

theorem PathItem.toJson_eq (item : PathItem) : item.toJson = .object item.table.members := by
  simp [toJson, table, Table.members, listMember_eq]

/-- The table of the definitions of a document. -/
def Components.table (components : Components) : Table :=
  [("schemas", Json.objectIfAny (membersOf SchemaNode.toJson components.schemas)),
    ("responses",
      Json.objectIfAny (membersOf (Referable.toJson Response.toJson) components.responses)),
    ("parameters",
      Json.objectIfAny (membersOf (Referable.toJson Parameter.toJson) components.parameters)),
    ("requestBodies",
      Json.objectIfAny (membersOf (Referable.toJson RequestBody.toJson) components.requestBodies))]

theorem Components.toJson_eq (components : Components) :
    components.toJson = .object components.table.members := by
  simp [toJson, table, Table.members, mapMember_eq, schemaMembers_eq]

/-- The table of what a document says of itself. -/
def Info.table (info : Info) : Table :=
  [("title", some (.string info.title)),
    ("description", info.description.map .string),
    ("version", some (.string info.version))]

theorem Info.toJson_eq (info : Info) : info.toJson = .object info.table.members := by
  simp [toJson, table, Table.members, optionalMember_some]

/-- The table of an address. -/
def Server.table (server : Server) : Table :=
  [("url", some (.string server.url)),
    ("description", server.description.map .string)]

theorem Server.toJson_eq (server : Server) : server.toJson = .object server.table.members := by
  simp [toJson, table, Table.members, optionalMember_some]

/-- The table of a document. -/
def Document.table (document : Document) : Table :=
  [("openapi", some (.string document.openapi)),
    ("info", some document.info.toJson),
    ("servers", Json.arrayIfAny (document.servers.map Server.toJson)),
    ("paths", Json.objectIfAny (membersOf PathItem.toJson document.paths)),
    ("components", document.components.map Components.toJson)]

theorem Document.toJson_eq (document : Document) :
    document.toJson = .object document.table.members := by
  simp [toJson, table, Table.members, optionalMember_some, listMember_eq, mapMember_eq]

end ApiAtlas
