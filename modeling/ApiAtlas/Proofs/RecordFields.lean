import Mathlib.Data.List.Forall2
import ApiAtlas.Document.Reader
import ApiAtlas.Proofs.EntryLookup

namespace ApiAtlas

section
variable {α β γ : Type} {read : α → Option β}

/-- A list is read if each item is. -/
theorem mapM_eq_some {items : List α} {results : List β} :
    items.mapM read = some results ↔ List.Forall₂ (fun a b => read a = some b) items results := by
  induction items generalizing results with
  | nil => simp [eq_comm]
  | cons a rest ih =>
    rw [List.mapM_cons]
    simp only [Option.bind_eq_bind, Option.bind_eq_some_iff, Option.pure_def, Option.some.injEq]
    constructor
    · rintro ⟨b, hb, bs, hbs, rfl⟩
      exact .cons hb (ih.mp hbs)
    · intro h
      cases h with
      | cons hb hbs => exact ⟨_, hb, _, ih.mpr hbs, rfl⟩

/-- Entries are read if each member is. -/
theorem readEntries_eq_some {members : List (String × α)} {entries : Entries β} :
    readEntries read members = some entries ↔ ∃ pairs, entries = Entries.ofPairs pairs ∧
      List.Forall₂ (fun m p => m.1 = p.1 ∧ read m.2 = some p.2) members pairs := by
  simp only [readEntries, Option.map_eq_some_iff, mapM_eq_some]
  constructor
  · rintro ⟨pairs, hp, rfl⟩
    exact ⟨pairs, rfl, hp.imp fun m p ⟨b, hb, he⟩ => by simp [← he, hb]⟩
  · rintro ⟨pairs, rfl, hp⟩
    exact ⟨pairs, hp.imp fun m p ⟨hk, hb⟩ => ⟨p.2, hb, by rw [hk]⟩, rfl⟩

/-- Members that match have the same keys. -/
theorem keys_of_forall₂ {R : α → β → Prop} {members : List (String × α)}
    {pairs : List (String × β)} (h : List.Forall₂ (fun m p => m.1 = p.1 ∧ R m.2 p.2) members pairs) :
    Entries.keys members = Entries.keys pairs := by
  induction h with
  | nil => rfl
  | cons hm _ ih => simpa [Entries.keys, hm.1] using ih

theorem get?_of_forall₂ {R : α → β → Prop} {members : List (String × α)}
    {pairs : List (String × β)} {key : String} {b : β}
    (h : List.Forall₂ (fun m p => m.1 = p.1 ∧ R m.2 p.2) members pairs)
    (hb : Entries.get? pairs key = some b) :
    ∃ a, Entries.get? members key = some a ∧ R a b := by
  induction h with
  | nil => simp at hb
  | @cons m p _ _ hm _ ih =>
    rw [Entries.get?_cons] at hb ⊢
    rw [hm.1]
    split at hb
    next hk =>
      cases Option.some.inj hb
      exact ⟨m.2, if_pos hk, hm.2⟩
    next hk => simpa only [if_neg hk] using ih hb

/-- Items that match still do when they are given the same names. -/
theorem forall₂_zip {R : α → β → Prop} {items : List α} {others : List β}
    (h : List.Forall₂ R items others) (names : List String) :
    List.Forall₂ (fun m p => m.1 = p.1 ∧ R m.2 p.2) (names.zip items) (names.zip others) := by
  induction h generalizing names with
  | nil => simp
  | cons hr _ ih =>
    cases names with
    | nil => simp
    | cons name names => exact .cons ⟨rfl, hr⟩ (ih names)

end

namespace Fields

variable {α β : Type} {fields : Fields α} {name : String} {read : α → Option β}
  {absent? : α → Option Bool} {fallback b : β} {a : α} {o : Option β}

theorem get?_eq_head? (fields : Fields α) (name : String) :
    Entries.get? fields name = ((fields.filter (·.1 == name)).head?).map Prod.snd := by
  induction fields with
  | nil => rfl
  | cons field rest ih =>
    rw [Entries.get?_cons, List.filter_cons]
    by_cases h : field.1 = name <;> simp [h, ih]

/-- A name that stands once is found from either end. -/
theorem get?_of_single? {found : Option α} (h : fields.single? name = some found) :
    Entries.get? fields name = found ∧ Entries.get? fields.reverse name = found := by
  rw [get?_eq_head?, get?_eq_head?, List.filter_reverse]
  unfold single? at h
  split at h
  next hn => cases h; simp [hn]
  next hs => cases h; simp [hs]
  next => cases h

theorem mem_of_single? (h : fields.single? name = some (some a)) : (name, a) ∈ fields :=
  Entries.mem_of_get? (get?_of_single? h).1

theorem demand_eq_some :
    fields.demand name read = some b ↔ ∃ a, fields.single? name = some (some a) ∧ read a = some b := by
  unfold demand
  rcases fields.single? name with _ | _ | a <;> simp

theorem withDefault_eq_some :
    fields.withDefault name read fallback = some b ↔
      (fields.single? name = some none ∧ b = fallback) ∨
        ∃ a, fields.single? name = some (some a) ∧ read a = some b := by
  unfold withDefault
  rcases fields.single? name with _ | _ | a <;> simp [eq_comm]

theorem optional_eq_some :
    fields.optional name absent? read = some o ↔
      (o = none ∧ (fields.single? name = some none ∨
        ∃ a, fields.single? name = some (some a) ∧ absent? a = some true)) ∨
      ∃ a b, o = some b ∧ fields.single? name = some (some a) ∧ absent? a = some false ∧
        read a = some b := by
  unfold optional
  rcases fields.single? name with _ | _ | a
  · simp
  · simp [eq_comm]
  · simp only [Option.bind_some, Option.some.injEq, reduceCtorEq, false_or]
    rcases h : absent? a with _ | _ | _
    · constructor
      · simp
      · rintro (⟨-, b, hb, ht⟩ | ⟨b, c, rfl, rfl, hb, -⟩)
        · simp [← hb, h] at ht
        · simp [h] at hb
    · constructor
      · intro hr
        obtain ⟨c, hc, rfl⟩ := Option.map_eq_some_iff.mp hr
        exact .inr ⟨a, c, rfl, rfl, h, hc⟩
      · rintro (⟨-, b, hb, ht⟩ | ⟨b, c, rfl, rfl, -, hc⟩)
        · simp [← hb, h] at ht
        · simp [hc]
    · constructor
      · intro hr
        simp only [Option.bind_some, if_true, Option.some.injEq] at hr
        exact .inl ⟨hr.symm, a, rfl, h⟩
      · rintro (⟨rfl, -⟩ | ⟨b, c, rfl, rfl, hb, -⟩)
        · rfl
        · simp [h] at hb

end Fields

variable {σ : Type} {node : Datum → Option σ} {datum : Datum} {source : Node}

/-- A discriminator is read from these fields. -/
structure Discriminator.From (fields : Fields Datum) (d : Discriminator) : Prop where
  propertyName : Fields.demand fields "propertyName" Datum.string? = some d.propertyName
  mapping : Fields.withDefault fields "mapping" (Datum.entriesOf Datum.string?) [] = some d.mapping

theorem Discriminator.ofDatum?_eq_some {d : Discriminator} :
    Discriminator.ofDatum? datum = some d ↔
      ∃ fields, datum.fields? Discriminator.fields = some fields ∧ d.From fields := by
  constructor
  · intro h
    simp only [Discriminator.ofDatum?, Option.bind_eq_bind, Option.bind_eq_some_iff,
      Option.pure_def, Option.some.injEq] at h
    obtain ⟨fields, hf, _, h1, _, h2, rfl⟩ := h
    exact ⟨fields, hf, h1, h2⟩
  · rintro ⟨fields, hf, h⟩
    simp [Discriminator.ofDatum?, hf, h.propertyName, h.mapping]

/-- What is read first is there for what is read next. -/
theorem read_bind {α β : Type} {first : Option α} {next : α → Option β} {a : α} {b : β}
    (h : first = some a) (h' : next a = some b) : (first >>= next) = some b := by
  rw [h]
  exact h'

/-- A schema is read from these fields, the nodes below it by `node`. -/
structure SchemaOf.From (node : Datum → Option σ) (fields : Fields Datum) (schema : SchemaOf σ) :
    Prop where
  types : Fields.optional fields "type" Datum.absent? TypeSet.ofDatum? = some schema.types
  format : Fields.optional fields "format" Datum.absent? Datum.string? = some schema.format
  description :
    Fields.optional fields "description" Datum.absent? Datum.string? = some schema.description
  defaultValue :
    Fields.optional fields "default" Datum.absent? Datum.json? = some schema.defaultValue
  nullable : Fields.optional fields "nullable" Datum.absent? Datum.bool? = some schema.nullable
  properties :
    Fields.withDefault fields "properties" (Datum.entriesOf node) [] = some schema.properties
  required :
    Fields.withDefault fields "required" (Datum.listOf Datum.string?) [] = some schema.required
  additional :
    Fields.optional fields "additionalProperties" Datum.absent? (Additional.ofDatum? node) =
      some schema.additional
  items : Fields.optional fields "items" Datum.absent? node = some schema.items
  uniqueItems :
    Fields.optional fields "uniqueItems" Datum.absent? Datum.bool? = some schema.uniqueItems
  allOf : Fields.withDefault fields "allOf" (Datum.listOf node) [] = some schema.allOf
  oneOf : Fields.withDefault fields "oneOf" (Datum.listOf node) [] = some schema.oneOf
  anyOf : Fields.withDefault fields "anyOf" (Datum.listOf node) [] = some schema.anyOf
  discriminator :
    Fields.optional fields "discriminator" Datum.absent? Discriminator.ofDatum? =
      some schema.discriminator
  enumValues :
    Fields.optional fields "enum" Datum.absent? (Datum.listOf Datum.json?) =
      some schema.enumValues
  constValue : Fields.optional fields "const" Datum.absent? Datum.json? = some schema.constValue
  readOnly : Fields.optional fields "readOnly" Datum.absent? Datum.bool? = some schema.readOnly
  writeOnly : Fields.optional fields "writeOnly" Datum.absent? Datum.bool? = some schema.writeOnly
  extensions :
    readEntries Datum.json? (Fields.others fields SchemaOf.keywords) = some schema.extensions

theorem SchemaOf.ofDatum?_eq_some {schema : SchemaOf σ} :
    SchemaOf.ofDatum? node datum = some schema ↔
      ∃ fields, datum.members? = some fields ∧ schema.From node fields := by
  -- The binds are taken one at a time: rewriting under all nineteen of them at once is too slow.
  constructor
  · intro h
    obtain ⟨fields, hf, h⟩ := Option.bind_eq_some_iff.mp h
    obtain ⟨_, htypes, h⟩ := Option.bind_eq_some_iff.mp h
    obtain ⟨_, hformat, h⟩ := Option.bind_eq_some_iff.mp h
    obtain ⟨_, hdescription, h⟩ := Option.bind_eq_some_iff.mp h
    obtain ⟨_, hdefaultValue, h⟩ := Option.bind_eq_some_iff.mp h
    obtain ⟨_, hnullable, h⟩ := Option.bind_eq_some_iff.mp h
    obtain ⟨_, hproperties, h⟩ := Option.bind_eq_some_iff.mp h
    obtain ⟨_, hrequired, h⟩ := Option.bind_eq_some_iff.mp h
    obtain ⟨_, hadditional, h⟩ := Option.bind_eq_some_iff.mp h
    obtain ⟨_, hitems, h⟩ := Option.bind_eq_some_iff.mp h
    obtain ⟨_, huniqueItems, h⟩ := Option.bind_eq_some_iff.mp h
    obtain ⟨_, hallOf, h⟩ := Option.bind_eq_some_iff.mp h
    obtain ⟨_, honeOf, h⟩ := Option.bind_eq_some_iff.mp h
    obtain ⟨_, hanyOf, h⟩ := Option.bind_eq_some_iff.mp h
    obtain ⟨_, hdiscriminator, h⟩ := Option.bind_eq_some_iff.mp h
    obtain ⟨_, henumValues, h⟩ := Option.bind_eq_some_iff.mp h
    obtain ⟨_, hconstValue, h⟩ := Option.bind_eq_some_iff.mp h
    obtain ⟨_, hreadOnly, h⟩ := Option.bind_eq_some_iff.mp h
    obtain ⟨_, hwriteOnly, h⟩ := Option.bind_eq_some_iff.mp h
    obtain ⟨_, hextensions, h⟩ := Option.bind_eq_some_iff.mp h
    cases h
    exact ⟨fields, hf, htypes, hformat, hdescription, hdefaultValue, hnullable, hproperties,
      hrequired, hadditional, hitems, huniqueItems, hallOf, honeOf, hanyOf, hdiscriminator,
      henumValues, hconstValue, hreadOnly, hwriteOnly, hextensions⟩
  · rintro ⟨fields, hf, h⟩
    exact read_bind hf <| read_bind h.types <| read_bind h.format <| read_bind h.description <|
      read_bind h.defaultValue <| read_bind h.nullable <| read_bind h.properties <|
      read_bind h.required <| read_bind h.additional <| read_bind h.items <|
      read_bind h.uniqueItems <| read_bind h.allOf <| read_bind h.oneOf <| read_bind h.anyOf <|
      read_bind h.discriminator <| read_bind h.enumValues <| read_bind h.constValue <|
      read_bind h.readOnly <| read_bind h.writeOnly <| read_bind h.extensions <| rfl

/-- The fields of an entry of `encoding`. -/
def Encoding.fields : List Field := [⟨"contentType", false⟩]

theorem Encoding.ofDatum?_eq_some {encoding : Encoding} :
    Encoding.ofDatum? datum = some encoding ↔
      ∃ fields, datum.fields? Encoding.fields = some fields ∧
        Fields.optional fields "contentType" Datum.absent? Datum.string? =
          some encoding.contentType := by
  constructor
  · intro h
    simp only [Encoding.ofDatum?, Option.bind_eq_bind, Option.bind_eq_some_iff,
      Option.pure_def, Option.some.injEq] at h
    obtain ⟨fields, hf, _, h1, rfl⟩ := h
    exact ⟨fields, hf, h1⟩
  · rintro ⟨fields, hf, h⟩
    rw [Encoding.fields] at hf
    simp [Encoding.ofDatum?, hf, h]

/-- An entry of `content` is read from these fields. -/
structure MediaType.From (fields : Fields Datum) (media : MediaType) : Prop where
  schema :
    Fields.optional fields "schema" Datum.absent? SchemaNode.ofDatum? = some media.schema
  encoding :
    Fields.withDefault fields "encoding" (Datum.entriesOf Encoding.ofDatum?) [] =
      some media.encoding
  extensions :
    readEntries Datum.json? (Fields.others fields ["schema", "encoding"]) = some media.extensions

theorem MediaType.ofDatum?_eq_some {media : MediaType} :
    MediaType.ofDatum? datum = some media ↔
      ∃ fields, datum.members? = some fields ∧ media.From fields := by
  constructor
  · intro h
    simp only [MediaType.ofDatum?, Option.bind_eq_bind, Option.bind_eq_some_iff,
      Option.pure_def, Option.some.injEq] at h
    obtain ⟨fields, hf, _, h1, _, h2, _, h3, rfl⟩ := h
    exact ⟨fields, hf, h1, h2, h3⟩
  · rintro ⟨fields, hf, h⟩
    simp [MediaType.ofDatum?, hf, h.schema, h.encoding, h.extensions]

/-- A parameter is read from these fields. -/
structure Parameter.From (fields : Fields Datum) (parameter : Parameter) : Prop where
  name : Fields.demand fields "name" Datum.string? = some parameter.name
  location : Fields.demand fields "in" ParameterLocation.ofDatum? = some parameter.location
  description :
    Fields.optional fields "description" Datum.absent? Datum.string? = some parameter.description
  required : Fields.withDefault fields "required" Datum.bool? false = some parameter.required
  deprecated :
    Fields.optional fields "deprecated" Datum.absent? Datum.bool? = some parameter.deprecated
  schema :
    Fields.optional fields "schema" Datum.absent? SchemaNode.ofDatum? = some parameter.schema
  content :
    Fields.withDefault fields "content" (Datum.entriesOf MediaType.ofDatum?) [] =
      some parameter.content

theorem Parameter.ofDatum?_eq_some {parameter : Parameter} :
    Parameter.ofDatum? datum = some parameter ↔
      ∃ fields, datum.fields? Parameter.fields = some fields ∧ parameter.From fields := by
  constructor
  · intro h
    simp only [Parameter.ofDatum?, Option.bind_eq_bind, Option.bind_eq_some_iff,
      Option.pure_def, Option.some.injEq] at h
    obtain ⟨fields, hf, _, h1, _, h2, _, h3, _, h4, _, h5, _, h6, _, h7, rfl⟩ := h
    exact ⟨fields, hf, h1, h2, h3, h4, h5, h6, h7⟩
  · rintro ⟨fields, hf, h⟩
    simp [Parameter.ofDatum?, hf, h.name, h.location, h.description, h.required, h.deprecated,
      h.schema, h.content]

/-- A request body is read from these fields. -/
structure RequestBody.From (fields : Fields Datum) (body : RequestBody) : Prop where
  description :
    Fields.optional fields "description" Datum.absent? Datum.string? = some body.description
  content :
    Fields.demand fields "content" (Datum.entriesOf MediaType.ofDatum?) = some body.content
  required : Fields.withDefault fields "required" Datum.bool? false = some body.required
  extensions :
    readEntries Datum.json? (Fields.others fields ["description", "content", "required"]) =
      some body.extensions

theorem RequestBody.ofDatum?_eq_some {body : RequestBody} :
    RequestBody.ofDatum? datum = some body ↔
      ∃ fields, datum.members? = some fields ∧ body.From fields := by
  constructor
  · intro h
    simp only [RequestBody.ofDatum?, Option.bind_eq_bind, Option.bind_eq_some_iff,
      Option.pure_def, Option.some.injEq] at h
    obtain ⟨fields, hf, _, h1, _, h2, _, h3, _, h4, rfl⟩ := h
    exact ⟨fields, hf, h1, h2, h3, h4⟩
  · rintro ⟨fields, hf, h⟩
    simp [RequestBody.ofDatum?, hf, h.description, h.content, h.required, h.extensions]

/-- A response is read from these fields. -/
structure Response.From (fields : Fields Datum) (response : Response) : Prop where
  description :
    Fields.withDefault fields "description" Datum.string? "" = some response.description
  content :
    Fields.withDefault fields "content" (Datum.entriesOf MediaType.ofDatum?) [] =
      some response.content
  extensions :
    readEntries Datum.json? (Fields.others fields ["description", "content"]) =
      some response.extensions

theorem Response.ofDatum?_eq_some {response : Response} :
    Response.ofDatum? datum = some response ↔
      ∃ fields, datum.members? = some fields ∧ response.From fields := by
  constructor
  · intro h
    simp only [Response.ofDatum?, Option.bind_eq_bind, Option.bind_eq_some_iff,
      Option.pure_def, Option.some.injEq] at h
    obtain ⟨fields, hf, _, h1, _, h2, _, h3, rfl⟩ := h
    exact ⟨fields, hf, h1, h2, h3⟩
  · rintro ⟨fields, hf, h⟩
    simp [Response.ofDatum?, hf, h.description, h.content, h.extensions]

/-- An operation is read from these fields. -/
structure Operation.From (fields : Fields Node) (operation : Operation) : Prop where
  operationId :
    Fields.optional fields "operationId" Node.absent? Node.text? = some operation.operationId
  summary : Fields.optional fields "summary" Node.absent? Node.text? = some operation.summary
  description :
    Fields.optional fields "description" Node.absent? Node.text? = some operation.description
  tags : Fields.withDefault fields "tags" (Node.listOf Node.text?) [] = some operation.tags
  parameters :
    Fields.withDefault fields "parameters"
      (Node.listOf (Node.viaDatum (Referable.ofDatum? Parameter.ofDatum?))) [] =
        some operation.parameters
  requestBody :
    Fields.optional fields "requestBody" Node.absent?
      (Node.viaDatum (Referable.ofDatum? RequestBody.ofDatum?)) = some operation.requestBody
  responses :
    Fields.withDefault fields "responses" Responses.ofNode? {} = some operation.responses
  deprecated :
    Fields.optional fields "deprecated" Node.absent? Node.truth? = some operation.deprecated
  extensions :
    readEntries (Node.viaDatum Datum.json?) (Fields.others fields Operation.members) =
      some operation.extensions

theorem Operation.ofNode?_eq_some {operation : Operation} :
    Operation.ofNode? source = some operation ↔
      ∃ fields, source.members? = some fields ∧ operation.From fields := by
  constructor
  · intro h
    simp only [Operation.ofNode?, Option.bind_eq_bind, Option.bind_eq_some_iff,
      Option.pure_def, Option.some.injEq] at h
    obtain ⟨fields, hf, _, h1, _, h2, _, h3, _, h4, _, h5, _, h6, _, h7, _, h8, _, h9, rfl⟩ := h
    exact ⟨fields, hf, h1, h2, h3, h4, h5, h6, h7, h8, h9⟩
  · rintro ⟨fields, hf, h⟩
    simp [Operation.ofNode?, hf, h.operationId, h.summary, h.description, h.tags, h.parameters,
      h.requestBody, h.responses, h.deprecated, h.extensions]

/-- A path item is read from these fields. -/
structure PathItem.From (fields : Fields Node) (item : PathItem) : Prop where
  summary : Fields.optional fields "summary" Node.absent? Node.text? = some item.summary
  description :
    Fields.optional fields "description" Node.absent? Node.text? = some item.description
  parameters :
    Fields.withDefault fields "parameters"
      (Node.listOf (Node.viaDatum (Referable.ofDatum? Parameter.ofDatum?))) [] =
        some item.parameters
  get : Fields.optional fields "get" Node.absent? Operation.ofNode? = some item.get
  post : Fields.optional fields "post" Node.absent? Operation.ofNode? = some item.post
  put : Fields.optional fields "put" Node.absent? Operation.ofNode? = some item.put
  delete : Fields.optional fields "delete" Node.absent? Operation.ofNode? = some item.delete
  patch : Fields.optional fields "patch" Node.absent? Operation.ofNode? = some item.patch
  options : Fields.optional fields "options" Node.absent? Operation.ofNode? = some item.options
  head : Fields.optional fields "head" Node.absent? Operation.ofNode? = some item.head
  trace : Fields.optional fields "trace" Node.absent? Operation.ofNode? = some item.trace

theorem PathItem.ofNode?_eq_some {item : PathItem} :
    PathItem.ofNode? source = some item ↔
      ∃ fields, source.fields? PathItem.fields = some fields ∧ item.From fields := by
  constructor
  · intro h
    simp only [PathItem.ofNode?, Option.bind_eq_bind, Option.bind_eq_some_iff,
      Option.pure_def, Option.some.injEq] at h
    obtain ⟨fields, hf, _, h1, _, h2, _, h3, _, h4, _, h5, _, h6, _, h7, _, h8, _, h9, _, h10,
      _, h11, rfl⟩ := h
    exact ⟨fields, hf, h1, h2, h3, h4, h5, h6, h7, h8, h9, h10, h11⟩
  · rintro ⟨fields, hf, h⟩
    simp [PathItem.ofNode?, hf, h.summary, h.description, h.parameters, h.get, h.post, h.put,
      h.delete, h.patch, h.options, h.head, h.trace]

/-- The definitions of a document are read from these fields. -/
structure Components.From (fields : Fields Node) (components : Components) : Prop where
  schemas :
    Fields.withDefault fields "schemas" (Node.entriesOf (Node.viaDatum SchemaNode.ofDatum?)) [] =
      some components.schemas
  responses :
    Fields.withDefault fields "responses"
      (Node.entriesOf (Node.viaDatum (Referable.ofDatum? Response.ofDatum?))) [] =
        some components.responses
  parameters :
    Fields.withDefault fields "parameters"
      (Node.entriesOf (Node.viaDatum (Referable.ofDatum? Parameter.ofDatum?))) [] =
        some components.parameters
  requestBodies :
    Fields.withDefault fields "requestBodies"
      (Node.entriesOf (Node.viaDatum (Referable.ofDatum? RequestBody.ofDatum?))) [] =
        some components.requestBodies

theorem Components.ofNode?_eq_some {components : Components} :
    Components.ofNode? source = some components ↔
      ∃ fields, source.fields? Components.fields = some fields ∧ components.From fields := by
  constructor
  · intro h
    simp only [Components.ofNode?, Option.bind_eq_bind, Option.bind_eq_some_iff,
      Option.pure_def, Option.some.injEq] at h
    obtain ⟨fields, hf, _, h1, _, h2, _, h3, _, h4, rfl⟩ := h
    exact ⟨fields, hf, h1, h2, h3, h4⟩
  · rintro ⟨fields, hf, h⟩
    simp [Components.ofNode?, hf, h.schemas, h.responses, h.parameters, h.requestBodies]

/-- What a document says of itself is read from these fields. -/
structure Info.From (fields : Fields Node) (info : Info) : Prop where
  title : Fields.demand fields "title" Node.text? = some info.title
  description :
    Fields.optional fields "description" Node.absent? Node.text? = some info.description
  version : Fields.demand fields "version" Node.text? = some info.version

theorem Info.ofNode?_eq_some {info : Info} :
    Info.ofNode? source = some info ↔
      ∃ fields, source.fields? Info.fields = some fields ∧ info.From fields := by
  constructor
  · intro h
    simp only [Info.ofNode?, Option.bind_eq_bind, Option.bind_eq_some_iff,
      Option.pure_def, Option.some.injEq] at h
    obtain ⟨fields, hf, _, h1, _, h2, _, h3, rfl⟩ := h
    exact ⟨fields, hf, h1, h2, h3⟩
  · rintro ⟨fields, hf, h⟩
    simp [Info.ofNode?, hf, h.title, h.description, h.version]

/-- An address is read from these fields. -/
structure Server.From (fields : Fields Node) (server : Server) : Prop where
  url : Fields.demand fields "url" Node.text? = some server.url
  description :
    Fields.optional fields "description" Node.absent? Node.text? = some server.description

theorem Server.ofNode?_eq_some {server : Server} :
    Server.ofNode? source = some server ↔
      ∃ fields, source.fields? Server.fields = some fields ∧ server.From fields := by
  constructor
  · intro h
    simp only [Server.ofNode?, Option.bind_eq_bind, Option.bind_eq_some_iff,
      Option.pure_def, Option.some.injEq] at h
    obtain ⟨fields, hf, _, h1, _, h2, rfl⟩ := h
    exact ⟨fields, hf, h1, h2⟩
  · rintro ⟨fields, hf, h⟩
    simp [Server.ofNode?, hf, h.url, h.description]

/-- A document is read from these fields. -/
structure Document.From (fields : Fields Node) (document : Document) : Prop where
  openapi : Fields.demand fields "openapi" Node.text? = some document.openapi
  info : Fields.demand fields "info" Info.ofNode? = some document.info
  servers :
    Fields.withDefault fields "servers" (Node.listOf Server.ofNode?) [] = some document.servers
  paths :
    Fields.withDefault fields "paths" (Node.entriesOf PathItem.ofNode?) [] = some document.paths
  components :
    Fields.optional fields "components" Node.absent? Components.ofNode? = some document.components

theorem Document.ofNode?_eq_some {document : Document} :
    Document.ofNode? source = some document ↔
      ∃ fields, source.fields? Document.fields = some fields ∧ document.From fields := by
  constructor
  · intro h
    simp only [Document.ofNode?, Option.bind_eq_bind, Option.bind_eq_some_iff,
      Option.pure_def, Option.some.injEq] at h
    obtain ⟨fields, hf, _, h1, _, h2, _, h3, _, h4, _, h5, rfl⟩ := h
    exact ⟨fields, hf, h1, h2, h3, h4, h5⟩
  · rintro ⟨fields, hf, h⟩
    simp [Document.ofNode?, hf, h.openapi, h.info, h.servers, h.paths, h.components]

/-- The name marks an extension among the members of `responses`. -/
def Responses.isVendor (name : String) : Bool := ['x', '-'].isPrefixOf name.toList

/-- The members of `responses` are told apart by their names. -/
theorem Responses.ofEntries?_eq_some {entries : Entries Json} {responses : Responses} :
    Responses.ofEntries? entries = some responses ↔
      responses.extensions = entries.filter (fun e => Responses.isVendor e.1) ∧
        List.Forall₂ (fun e r => e.1 = r.1 ∧
            Referable.ofDatum? Response.ofDatum? e.2.datum = some r.2)
          (entries.filter fun e => !Responses.isVendor e.1) responses.entries := by
  induction entries generalizing responses with
  | nil =>
    obtain ⟨answers, extensions⟩ := responses
    simp [Responses.ofEntries?, eq_comm, and_comm]
  | cons entry rest ih =>
    obtain ⟨key, value⟩ := entry
    obtain ⟨answers, extensions⟩ := responses
    simp only [Responses.ofEntries?, Option.bind_eq_bind, Option.bind_eq_some_iff]
    by_cases hx : Responses.isVendor key = true
    · simp only [List.filter_cons, hx, Bool.not_true, if_true]
      rw [Responses.isVendor] at hx
      constructor
      · rintro ⟨others, ho, h⟩
        obtain ⟨hext, hent⟩ := ih.mp ho
        rw [if_pos hx] at h
        cases h
        exact ⟨congrArg _ hext, hent⟩
      · rintro ⟨rfl, hent⟩
        exact ⟨⟨answers, _⟩, ih.mpr ⟨rfl, hent⟩, by rw [if_pos hx]; rfl⟩
    · simp only [List.filter_cons, hx, Bool.not_false, if_true]
      rw [Responses.isVendor] at hx
      constructor
      · rintro ⟨others, ho, h⟩
        obtain ⟨hext, hent⟩ := ih.mp ho
        rw [if_neg hx] at h
        obtain ⟨response, hr, h⟩ := Option.bind_eq_some_iff.mp h
        cases h
        exact ⟨hext, .cons ⟨rfl, hr⟩ hent⟩
      · rintro ⟨hext, hent⟩
        obtain ⟨⟨name, response⟩, others, ⟨hname, hr⟩, hrest, he⟩ :=
          List.forall₂_cons_left_iff.mp hent
        obtain rfl : key = name := hname
        subst he
        exact ⟨⟨others, extensions⟩, ih.mpr ⟨hext, hrest⟩, by rw [if_neg hx, hr]; rfl⟩

theorem Document.ofJson_eq_ok {text : String} {document : Document} :
    Document.ofJson text = .ok document ↔ ∃ node, Json.readNode text = some node ∧
      Document.ofNode? node = some document ∧
        ['3', '.'].isPrefixOf document.openapi.toList = true := by
  unfold Document.ofJson Document.accept
  cases hn : Json.readNode text with
  | none => simp
  | some node =>
    cases hd : Document.ofNode? node with
    | none => simp [hd]
    | some read =>
      simp only [Option.bind_some, hd]
      split
      next hv =>
        constructor
        · rintro h
          cases h
          exact ⟨node, rfl, hd, hv⟩
        · rintro ⟨_, he, h, -⟩
          cases he
          cases hd.symm.trans h
          rfl
      next hv =>
        constructor
        · simp
        · rintro ⟨_, he, h, hv'⟩
          cases he
          cases hd.symm.trans h
          exact absurd hv' hv

end ApiAtlas
