import ApiAtlas.Proofs.WrittenJson

namespace ApiAtlas

/-- The distinct names among some, in order of first occurrence or ascending. -/
def Order.distinct : Order → List String → List String
  | .written, names => names.eraseDups
  | .ascending, names => names.eraseDups.insertionSort (· ≤ ·)

namespace Node

/-- A step down in a text. -/
inductive Step
  /-- To the value of a key, the last one of several. -/
  | key (name : String)
  /-- To a field of a record, which may be written as the list of its fields. -/
  | field (declared : List Field) (name : String)
  /-- To an item of a list. -/
  | item (index : Nat)
deriving Repr, DecidableEq

/-- The members of a mapping whose keys are texts. -/
def named : Node → List (String × Node)
  | .mapping _ members =>
    members.filterMap fun (key, value) => key.text?.map fun name => (name, value)
  | _ => []

/-- The node that a step leads to. -/
def follow? : Step → Node → Option Node
  | .key name, node => Entries.get? node.named.reverse name
  | .field declared name, .sequence _ _ items =>
    Entries.get? ((declared.map Field.name).zip items) name
  | .field _ name, node => Entries.get? node.named.reverse name
  | .item index, .sequence _ _ items => items[index]?
  | .item _, _ => none

/-- The node at the end of a path. -/
def walk? : List Step → Node → Option Node
  | [], node => some node
  | step :: path, node => (node.follow? step).bind (walk? path)

/-- The names of the members at the end of a path, as the text has them. -/
def namesAt (path : List Step) (node : Node) : List String :=
  match node.walk? path with
  | some found => Entries.keys found.named
  | none => []

end Node

/-- Which members of a mapping a map takes. -/
inductive Part
  | all
  /-- Those that are not declared. -/
  | others (declared : List String)
  /-- The answers among the members of `responses`. -/
  | statuses
  /-- The extensions among the members of `responses`. -/
  | vendor
deriving Repr, DecidableEq

/-- A map takes a member of this name. -/
def Part.takes : Part → String → Bool
  | .all, _ => true
  | .others declared, name => !declared.contains name
  | .statuses, name => !(['x', '-'].isPrefixOf name.toList)
  | .vendor, name => ['x', '-'].isPrefixOf name.toList

/-- A map of a document: its keys, the mapping whose members it takes, and the order that a reader
gives to them. -/
structure Place where
  path : List Node.Step
  part : Part
  order : Order
  keys : List String
deriving Repr, DecidableEq

namespace Place

/-- The same map, seen from a step above. -/
def under (step : Node.Step) (place : Place) : Place := { place with path := step :: place.path }

/-- The names that the map takes, as the text has them. -/
def names (place : Place) (node : Node) : List String :=
  (node.namesAt place.path).filter place.part.takes

end Place

/-- Maps seen from a step above. -/
def placesUnder (step : Node.Step) (places : List Place) : List Place := places.map (·.under step)

/-- The maps of an optional value. -/
def placesOfOption {α : Type} (each : α → List Place) : Option α → List Place
  | none => []
  | some a => each a

/-- The maps of listed values, the first of which is the item `start`. -/
def placesOfItems {α : Type} (each : α → List Place) (start : Nat) : List α → List Place
  | [] => []
  | a :: rest => placesUnder (.item start) (each a) ++ placesOfItems each (start + 1) rest

/-- The maps of the values of a map. -/
def placesOfValues {α : Type} (each : α → List Place) : Entries α → List Place
  | [] => []
  | (key, a) :: rest => placesUnder (.key key) (each a) ++ placesOfValues each rest

/-- A map and the maps of its values. -/
def placesOfEntries {α : Type} (order : Order) (each : α → List Place) (entries : Entries α) :
    List Place :=
  ⟨[], .all, order, Entries.keys entries⟩ :: placesOfValues each entries

/-- The maps of a value in place. -/
def Referable.places {α : Type} (each : α → List Place) : Referable α → List Place
  | .ref _ => []
  | .inline a => each a

/-- The maps of a discriminator. -/
def Discriminator.places (order : Order) (d : Discriminator) : List Place :=
  placesUnder (.field Discriminator.fields "mapping") (placesOfEntries order (fun _ => []) d.mapping)

/-- The maps of `additionalProperties`. -/
def Additional.places {σ : Type} (each : σ → List Place) : Additional σ → List Place
  | .allowed _ => []
  | .each node => each node

/-- The maps of a schema, those of the nodes below it given by `each`. -/
def SchemaOf.places {σ : Type} (order : Order) (each : σ → List Place) (schema : SchemaOf σ) :
    List Place :=
  placesUnder (.key "properties") (placesOfEntries order each schema.properties) ++
  placesUnder (.key "additionalProperties")
    (placesOfOption (Additional.places each) schema.additional) ++
  placesUnder (.key "items") (placesOfOption each schema.items) ++
  placesUnder (.key "allOf") (placesOfItems each 0 schema.allOf) ++
  placesUnder (.key "oneOf") (placesOfItems each 0 schema.oneOf) ++
  placesUnder (.key "anyOf") (placesOfItems each 0 schema.anyOf) ++
  placesUnder (.key "discriminator")
    (placesOfOption (Discriminator.places order) schema.discriminator) ++
  [⟨[], .others SchemaOf.keywords, order, Entries.keys schema.extensions⟩]

mutual

/-- The maps of a schema or reference. -/
def SchemaNode.places (order : Order) : SchemaNode → List Place
  | .ref _ => []
  | .inline {
      properties, additional, items, allOf, oneOf, anyOf, discriminator, extensions, .. } =>
    placesUnder (.key "properties")
      (⟨[], .all, order, Entries.keys properties⟩ :: placesOfProperties order properties) ++
    placesUnder (.key "additionalProperties") (placesOfAdditional order additional) ++
    placesUnder (.key "items") (placesOfOptionalSchema order items) ++
    placesUnder (.key "allOf") (placesOfBranches order 0 allOf) ++
    placesUnder (.key "oneOf") (placesOfBranches order 0 oneOf) ++
    placesUnder (.key "anyOf") (placesOfBranches order 0 anyOf) ++
    placesUnder (.key "discriminator")
      (placesOfOption (Discriminator.places order) discriminator) ++
    [⟨[], .others SchemaOf.keywords, order, Entries.keys extensions⟩]

/-- The maps of schemas by name. -/
def placesOfProperties (order : Order) : List (String × SchemaNode) → List Place
  | [] => []
  | (key, node) :: rest =>
    placesUnder (.key key) (node.places order) ++ placesOfProperties order rest

/-- The maps of `additionalProperties`. -/
def placesOfAdditional (order : Order) : Option (Additional SchemaNode) → List Place
  | none => []
  | some (.allowed _) => []
  | some (.each node) => node.places order

/-- The maps of `items`. -/
def placesOfOptionalSchema (order : Order) : Option SchemaNode → List Place
  | none => []
  | some node => node.places order

/-- The maps of branches, the first of which is the item `start`. -/
def placesOfBranches (order : Order) (start : Nat) : List SchemaNode → List Place
  | [] => []
  | node :: rest =>
    placesUnder (.item start) (node.places order) ++ placesOfBranches order (start + 1) rest

end

theorem placesOfProperties_eq (order : Order) (properties : List (String × SchemaNode)) :
    placesOfProperties order properties = placesOfValues (SchemaNode.places order) properties := by
  induction properties with
  | nil => rfl
  | cons property rest ih => rw [placesOfProperties, ih, placesOfValues]

theorem placesOfBranches_eq (order : Order) (start : Nat) (nodes : List SchemaNode) :
    placesOfBranches order start nodes =
      placesOfItems (SchemaNode.places order) start nodes := by
  induction nodes generalizing start with
  | nil => rfl
  | cons node rest ih => rw [placesOfBranches, ih, placesOfItems]

/-- The maps of a schema in place come of the maps of the nodes below it. -/
theorem SchemaNode.places_inline (order : Order) (schema : Schema) :
    (SchemaNode.inline schema).places order = schema.places order (SchemaNode.places order) := by
  have hadditional : placesOfAdditional order schema.additional =
      placesOfOption (Additional.places (SchemaNode.places order)) schema.additional := by
    rcases schema.additional with _ | ⟨_ | _⟩ <;> rfl
  have hitems : placesOfOptionalSchema order schema.items =
      placesOfOption (SchemaNode.places order) schema.items := by
    cases schema.items <;> rfl
  rw [SchemaNode.places, SchemaOf.places, placesOfProperties_eq, placesOfBranches_eq,
    placesOfBranches_eq, placesOfBranches_eq, hadditional, hitems, placesOfEntries]

/-- The maps of an entry of `content`. -/
def MediaType.places (order : Order) (media : MediaType) : List Place :=
  placesUnder (.key "schema") (placesOfOption (SchemaNode.places order) media.schema) ++
  placesUnder (.key "encoding") (placesOfEntries order (fun _ => []) media.encoding) ++
  [⟨[], .others ["schema", "encoding"], order, Entries.keys media.extensions⟩]

/-- The maps of a parameter. -/
def Parameter.places (order : Order) (parameter : Parameter) : List Place :=
  placesUnder (.field Parameter.fields "schema")
    (placesOfOption (SchemaNode.places order) parameter.schema) ++
  placesUnder (.field Parameter.fields "content")
    (placesOfEntries order (MediaType.places order) parameter.content)

/-- The maps of a request body. -/
def RequestBody.places (order : Order) (body : RequestBody) : List Place :=
  placesUnder (.key "content") (placesOfEntries order (MediaType.places order) body.content) ++
  [⟨[], .others ["description", "content", "required"], order, Entries.keys body.extensions⟩]

/-- The maps of a response. -/
def Response.places (order : Order) (response : Response) : List Place :=
  placesUnder (.key "content") (placesOfEntries order (MediaType.places order) response.content) ++
  [⟨[], .others ["description", "content"], order, Entries.keys response.extensions⟩]

/-- The maps of the responses of an operation. Those within a response are read in ascending
order. -/
def Responses.places (responses : Responses) : List Place :=
  ⟨[], .statuses, .written, Entries.keys responses.entries⟩ ::
  ⟨[], .vendor, .written, Entries.keys responses.extensions⟩ ::
  placesOfValues (Referable.places (Response.places .ascending)) responses.entries

/-- The maps of an operation. -/
def Operation.places (operation : Operation) : List Place :=
  placesUnder (.key "parameters")
    (placesOfItems (Referable.places (Parameter.places .written)) 0 operation.parameters) ++
  placesUnder (.key "requestBody")
    (placesOfOption (Referable.places (RequestBody.places .written)) operation.requestBody) ++
  placesUnder (.key "responses") operation.responses.places ++
  [⟨[], .others Operation.members, .written, Entries.keys operation.extensions⟩]

/-- The maps of a path item. -/
def PathItem.places (item : PathItem) : List Place :=
  let operation (name : String) (operation : Option Operation) : List Place :=
    placesUnder (.field PathItem.fields name) (placesOfOption Operation.places operation)
  placesUnder (.field PathItem.fields "parameters")
    (placesOfItems (Referable.places (Parameter.places .written)) 0 item.parameters) ++
  operation "get" item.get ++ operation "post" item.post ++ operation "put" item.put ++
  operation "delete" item.delete ++ operation "patch" item.patch ++
  operation "options" item.options ++ operation "head" item.head ++ operation "trace" item.trace

/-- The maps of the definitions of a document. -/
def Components.places (components : Components) : List Place :=
  let definitions {α : Type} (name : String) (each : α → List Place) (entries : Entries α) :
      List Place :=
    placesUnder (.field Components.fields name) (placesOfEntries .written each entries)
  definitions "schemas" (SchemaNode.places .written) components.schemas ++
  definitions "responses" (Referable.places (Response.places .written)) components.responses ++
  definitions "parameters" (Referable.places (Parameter.places .written)) components.parameters ++
  definitions "requestBodies" (Referable.places (RequestBody.places .written))
    components.requestBodies

/-- The maps of a document, each with its place in the text. -/
def Document.places (document : Document) : List Place :=
  placesUnder (.field Document.fields "paths")
    (placesOfEntries .written PathItem.places document.paths) ++
  placesUnder (.field Document.fields "components")
    (placesOfOption Components.places document.components)

/-- Each map has the keys that the text gives it, in the order that its reader gives to them. -/
def Keep (node : Node) (places : List Place) : Prop :=
  ∀ place ∈ places, place.keys = place.order.distinct (place.names node)

end ApiAtlas
