import ApiAtlas.Proofs.Echoes
import ApiAtlas.Proofs.NestedSchemas

namespace ApiAtlas

/-- The further members of a record have a text under `$ref`. -/
def holdsReference (extensions : Entries Json) : Bool :=
  extensions.any fun (key, value) => key == "$ref" && value.string?.isSome

section
variable {σ α : Type}

/-- The schema for further members, if there is one, is told from a reference. -/
def Additional.isUnambiguous (node : σ → Bool) : Additional σ → Bool
  | .allowed _ => true
  | .each schema => node schema

/-- The schema is told from a reference, and so are the nodes below it. -/
def SchemaOf.isUnambiguous (node : σ → Bool) (schema : SchemaOf σ) : Bool :=
  !holdsReference schema.extensions && schema.properties.all (fun (_, below) => node below) &&
    schema.additional.all (Additional.isUnambiguous node) && schema.items.all node &&
    schema.allOf.all node && schema.oneOf.all node && schema.anyOf.all node

/-- A value in place is told from a reference. -/
def Referable.isUnambiguous (inline : α → Bool) : Referable α → Bool
  | .ref _ => true
  | .inline value => inline value

end

namespace SchemaNode

mutual

/-- No schema in place can be taken for a reference. -/
def isUnambiguous : SchemaNode → Bool
  | .ref _ => true
  | .inline { properties, additional, items, allOf, oneOf, anyOf, extensions, .. } =>
    !holdsReference extensions && unambiguousEntries properties &&
      unambiguousAdditional additional && unambiguousItems items && unambiguousList allOf &&
      unambiguousList oneOf && unambiguousList anyOf

/-- No schema of these properties can be taken for a reference. -/
def unambiguousEntries : List (String × SchemaNode) → Bool
  | [] => true
  | (_, node) :: rest => node.isUnambiguous && unambiguousEntries rest

/-- The value of `additionalProperties` cannot be taken for a reference. -/
def unambiguousAdditional : Option (Additional SchemaNode) → Bool
  | none => true
  | some (.allowed _) => true
  | some (.each node) => node.isUnambiguous

/-- The value of `items` cannot be taken for a reference. -/
def unambiguousItems : Option SchemaNode → Bool
  | none => true
  | some node => node.isUnambiguous

/-- No schema of a list can be taken for a reference. -/
def unambiguousList : List SchemaNode → Bool
  | [] => true
  | node :: rest => node.isUnambiguous && unambiguousList rest

end

theorem unambiguousEntries_eq (entries : List (String × SchemaNode)) :
    unambiguousEntries entries = entries.all fun (_, node) => node.isUnambiguous := by
  induction entries with
  | nil => rfl
  | cons entry rest ih => rw [unambiguousEntries, ih, List.all_cons]

theorem unambiguousList_eq (nodes : List SchemaNode) :
    unambiguousList nodes = nodes.all isUnambiguous := by
  induction nodes with
  | nil => rfl
  | cons node rest ih => rw [unambiguousList, ih, List.all_cons]

theorem isUnambiguous_inline (schema : Schema) :
    (SchemaNode.inline schema).isUnambiguous = schema.isUnambiguous isUnambiguous := by
  have hadditional : ∀ additional, unambiguousAdditional additional =
      additional.all (Additional.isUnambiguous isUnambiguous) := by
    rintro (_ | _ | _) <;> rfl
  have hitems : ∀ items, unambiguousItems items = items.all isUnambiguous := by
    rintro (_ | _) <;> rfl
  cases schema
  rw [isUnambiguous, SchemaOf.isUnambiguous]
  simp only [unambiguousEntries_eq, unambiguousList_eq, hadditional, hitems]

end SchemaNode

/-- The schema of a payload is told from a reference. -/
def MediaType.isUnambiguous (media : MediaType) : Bool :=
  media.schema.all SchemaNode.isUnambiguous

/-- All the payloads in their media types are. -/
def unambiguousContent (content : Entries MediaType) : Bool :=
  content.all fun (_, media) => media.isUnambiguous

/-- The schemas of a parameter are told from references. -/
def Parameter.isUnambiguous (parameter : Parameter) : Bool :=
  parameter.schema.all SchemaNode.isUnambiguous && unambiguousContent parameter.content

/-- The body is told from a reference, and so are its schemas. -/
def RequestBody.isUnambiguous (body : RequestBody) : Bool :=
  !holdsReference body.extensions && unambiguousContent body.content

/-- The response is told from a reference, and so are its schemas. -/
def Response.isUnambiguous (response : Response) : Bool :=
  !holdsReference response.extensions && unambiguousContent response.content

/-- What the operation has in place is told from references. -/
def Operation.isUnambiguous (operation : Operation) : Bool :=
  operation.parameters.all (Referable.isUnambiguous Parameter.isUnambiguous) &&
    operation.requestBody.all (Referable.isUnambiguous RequestBody.isUnambiguous) &&
    operation.responses.entries.all fun (_, response) =>
      response.isUnambiguous Response.isUnambiguous

/-- What is in place below the path is told from references. -/
def PathItem.isUnambiguous (item : PathItem) : Bool :=
  item.parameters.all (Referable.isUnambiguous Parameter.isUnambiguous) &&
    [item.get, item.post, item.put, item.delete, item.patch, item.options, item.head,
      item.trace].all fun operation => operation.all Operation.isUnambiguous

/-- The definitions in place are told from references. -/
def Components.isUnambiguous (components : Components) : Bool :=
  components.schemas.all (fun (_, node) => node.isUnambiguous) &&
    components.responses.all (fun (_, r) => r.isUnambiguous Response.isUnambiguous) &&
    components.parameters.all (fun (_, p) => p.isUnambiguous Parameter.isUnambiguous) &&
    components.requestBodies.all fun (_, body) => body.isUnambiguous RequestBody.isUnambiguous

/-- No schema, request body or response in place has a text under `$ref` among its further
members. -/
def Document.isUnambiguous (document : Document) : Bool :=
  document.paths.all (fun (_, item) => item.isUnambiguous) &&
    document.components.all Components.isUnambiguous

namespace Medium

variable {α β : Type} {m : Medium α} {order : Order} {read reread : Datum → Option β}
  {print : β → Json} {ok : β → Prop}

/-- What is printed as an atom. -/
theorem echoes_atom {read reread : α → Option β} (hfits : ∀ room b, (print b).Within room)
    (hthere : ∀ b, (print b).isNull = false)
    (hreread : ∀ b, reread (m.display (print b)) = some b) : m.Echoes read reread print ok :=
  fun _ _ _ _ _ _ => ⟨hfits _ _, fun _ => hthere _, hreread _⟩

theorem echoes_string :
    (values order).Echoes Datum.string? Datum.string? Json.string fun _ => True :=
  echoes_atom (fun _ => .string) (fun _ => rfl) fun _ => rfl

theorem echoes_bool : (values order).Echoes Datum.bool? Datum.bool? Json.bool fun _ => True :=
  echoes_atom (fun _ => .bool) (fun _ => rfl) fun _ => rfl

theorem echoes_text : nodes.Echoes Node.text? Node.text? Json.string fun _ => True :=
  echoes_atom (fun _ => .string) (fun _ => rfl) fun _ => rfl

theorem echoes_truth : nodes.Echoes Node.truth? Node.truth? Json.bool fun _ => True :=
  echoes_atom (fun _ => .bool) (fun _ => rfl) fun _ => rfl

/-- A value that is kept as it is has its members in ascending order. -/
theorem echoes_json : (values order).Echoes Datum.json? Datum.json? id fun _ => True := by
  rintro room _ b ⟨v, hv, rfl⟩ hr -
  rw [Json.json?_datum, Option.some.injEq] at hr
  subst hr
  refine ⟨(hv.arranged order).arranged _, fun ha => ?_, ?_⟩
  · have hnull : some v.isNull = some false := ((values order).absent_display v).symm.trans ha
    simpa [Json.isNull_arranged] using hnull
  · rw [id, values_display, Json.arranged_arranged, Json.json?_datum, Json.arranged_arranged]

/-- A node that is read by way of a value. -/
theorem echoes_viaDatum (h : (values .written).Echoes read reread print ok) :
    nodes.Echoes (Node.viaDatum read) (Node.viaDatum reread) print ok := by
  intro room node b hs hr hok
  obtain ⟨datum, hd, hr⟩ := Option.bind_eq_some_iff.mp hr
  obtain ⟨v, hv, rfl, rfl⟩ := Node.OfJson.of_datum? hs hd
  have hecho := h ⟨v, hv, by rw [Json.arranged_written]⟩ hr hok
  refine ⟨hecho.fits, fun ha => hecho.there ?_, ?_⟩
  · rw [← ha]
    exact (Json.absent?_datum v).trans (Json.absent?_node v).symm
  · have hagain := hecho.again
    rw [values_display, Json.arranged_written] at hagain
    rw [Node.viaDatum, nodes_display, Json.datum?_node]
    exact hagain

/-- A list of values that are kept as they are. -/
theorem echoes_jsons :
    (values order).Echoes (Datum.listOf Datum.json?) (Datum.listOf Datum.json?) Json.array
      fun _ => True := by
  intro room a vs hs hr _
  have hecho : (values order).Echo (Datum.listOf Datum.json?) room a (.array (vs.map id)) vs :=
    echoes_list echoes_json hs hr fun _ _ => trivial
  rwa [List.map_id] at hecho

end Medium

section
variable {σ α : Type} {order : Order} {node reread : Datum → Option σ} {write : σ → Json}
  {told : σ → Bool} {read : Datum → Option α} {print : α → Json} {inline : α → Bool}

open Medium

theorem SchemaType.echoes :
    (values order).Echoes SchemaType.ofDatum? SchemaType.ofDatum? (fun t => .string t.name)
      fun _ => True :=
  echoes_atom (fun _ _ => .string _) (fun _ => rfl) fun t => by cases t <;> rfl

theorem TypeSet.echoes :
    (values order).Echoes TypeSet.ofDatum? TypeSet.ofDatum? TypeSet.toJson fun _ => True := by
  intro room datum types hs hr _
  unfold TypeSet.ofDatum? at hr
  split at hr
  next t ht =>
    cases hr
    have hecho := SchemaType.echoes hs ht trivial
    refine ⟨hecho.fits, hecho.there, ?_⟩
    have hagain := hecho.again
    rw [TypeSet.ofDatum?, TypeSet.toJson, hagain]
  next =>
    obtain ⟨ts, hts, rfl⟩ := Option.map_eq_some_iff.mp hr
    have hecho := echoes_list SchemaType.echoes hs hts fun _ _ => trivial
    refine ⟨hecho.fits, hecho.there, ?_⟩
    have hnone :
        SchemaType.ofDatum? ((values order).display (TypeSet.several ts).toJson) = none := by
      rw [TypeSet.toJson, values_display, Json.arranged_array]
      rfl
    have hagain : Datum.listOf SchemaType.ofDatum?
        ((values order).display (TypeSet.several ts).toJson) = some ts := hecho.again
    rw [TypeSet.ofDatum?, hnone]
    simp only [hagain, Option.map_some]

theorem Discriminator.echoes :
    (values order).Echoes Discriminator.ofDatum? Discriminator.ofDatum? Discriminator.toJson
      fun _ => True := by
  intro room datum d hs hr _
  obtain ⟨fields, hf, hr⟩ := Discriminator.ofDatum?_eq_some.mp hr
  obtain ⟨left, rfl, hfields⟩ := (values order).of_fields hs hf
  have hanswers :=
    (answers_demand hfields echoes_string hr.propertyName trivial).cons
    ((answers_entries hfields echoes_string hr.mapping fun _ _ => trivial).cons
    answers_nil)
  obtain ⟨hfits, hname, hmapping, -⟩ :=
    hanswers.record d.table (by simp [table, Table.names])
  rw [Discriminator.toJson_eq]
  exact ⟨hfits, fun _ => rfl, Discriminator.ofDatum?_eq_some.mpr
    ⟨_, (values order).fields_display _ _, hname, hmapping⟩⟩

/-- A node is written as an object, so that it is not taken for a truth value. -/
theorem Additional.echoes (hobject : ∀ n, ∃ members, write n = .object members)
    (h : (values order).Echoes node reread write fun n => told n = true) :
    (values order).Echoes (Additional.ofDatum? node) (Additional.ofDatum? reread)
      (Additional.toJson write) fun a => a.isUnambiguous told = true := by
  intro room datum additional hs hr hok
  unfold Additional.ofDatum? at hr
  split at hr
  next yes =>
    cases hr
    exact ⟨.bool yes, fun _ => rfl, rfl⟩
  next =>
    obtain ⟨n, hn, rfl⟩ := Option.map_eq_some_iff.mp hr
    have hecho := h hs hn hok
    refine ⟨hecho.fits, hecho.there, ?_⟩
    have hagain := hecho.again
    obtain ⟨members, hm⟩ := hobject n
    rw [hm, values_display, Json.arranged_object, Json.datum] at hagain
    rw [Additional.toJson, hm, values_display, Json.arranged_object, Json.datum,
      Additional.ofDatum?, hagain]
    · rfl
    · simp

theorem SchemaOf.echoes (hobject : ∀ n, ∃ members, write n = .object members)
    (h : (values order).Echoes node reread write fun n => told n = true) :
    (values order).Echoes (SchemaOf.ofDatum? node) (SchemaOf.ofDatum? reread)
      (SchemaOf.toJson write) fun schema => schema.isUnambiguous told = true := by
  intro room datum schema hs hr hok
  simp only [SchemaOf.isUnambiguous, Bool.and_eq_true, List.all_eq_true] at hok
  obtain ⟨⟨⟨⟨⟨⟨-, hproperties⟩, hadditional⟩, hitems⟩, hallOf⟩, honeOf⟩, hanyOf⟩ := hok
  obtain ⟨fields, hf, hr⟩ := SchemaOf.ofDatum?_eq_some.mp hr
  obtain ⟨hsettles, left, rfl, hfields⟩ := (values order).of_members hs hf
  have hanswers :=
    (answers_optional hfields TypeSet.echoes hr.types fun _ _ => trivial).cons <|
    (answers_optional hfields echoes_string hr.format fun _ _ => trivial).cons <|
    (answers_optional hfields echoes_string hr.description fun _ _ => trivial).cons <|
    (answers_kept hfields echoes_json hr.defaultValue).cons <|
    (answers_optional hfields echoes_bool hr.nullable fun _ _ => trivial).cons <|
    (answers_entries hfields h hr.properties hproperties).cons <|
    (answers_list hfields echoes_string hr.required fun _ _ => trivial).cons <|
    (answers_optional hfields (Additional.echoes hobject h) hr.additional
      ((Option.all_eq_true _ _).mp hadditional)).cons <|
    (answers_optional hfields h hr.items ((Option.all_eq_true _ _).mp hitems)).cons <|
    (answers_optional hfields echoes_bool hr.uniqueItems fun _ _ => trivial).cons <|
    (answers_list hfields h hr.allOf hallOf).cons <|
    (answers_list hfields h hr.oneOf honeOf).cons <|
    (answers_list hfields h hr.anyOf hanyOf).cons <|
    (answers_optional hfields Discriminator.echoes hr.discriminator fun _ _ => trivial).cons <|
    (answers_optional hfields echoes_jsons hr.enumValues fun _ _ => trivial).cons <|
    (answers_kept hfields echoes_json hr.constValue).cons <|
    (answers_optional hfields echoes_bool hr.readOnly fun _ _ => trivial).cons <|
    (answers_optional hfields echoes_bool hr.writeOnly fun _ _ => trivial).cons answers_nil
  obtain ⟨hfits, ⟨types, format, description, defaultValue, nullable, properties, required,
    additional, items, uniqueItems, allOf, oneOf, anyOf, discriminator, enumValues, constValue,
    readOnly, writeOnly, -⟩, extensions⟩ :=
    hanswers.extended (schema.table write) (show SchemaOf.keywords.Nodup by decide)
      echoes_json hfields hsettles hr.extensions
  exact ⟨hfits, fun _ => rfl, SchemaOf.ofDatum?_eq_some.mpr ⟨_, (values order).members_display _,
    ⟨types, format, description, defaultValue, nullable, properties, required, additional, items,
      uniqueItems, allOf, oneOf, anyOf, discriminator, enumValues, constValue, readOnly, writeOnly,
      extensions⟩⟩⟩

/-- What a reader takes for a reference has a text under `$ref`. -/
theorem mem_of_reference? {members : List (String × Json)} {path : String}
    (h : ((values order).display (.object members)).reference? = some path) :
    ("$ref", Json.string path) ∈ members := by
  rw [values_display, Json.arranged_object, Json.datum, Datum.reference?,
    Json.countedMembers?_datum, Option.bind_some, List.map_map] at h
  obtain ⟨a, ha, hpath⟩ := Fields.demand_eq_some.mp h
  obtain ⟨⟨key, v⟩, hm, he⟩ := List.mem_map.mp (Fields.mem_of_single? ha)
  simp only [Function.comp_apply, Prod.mk.injEq] at he
  obtain ⟨rfl, rfl⟩ := he
  have hv : v = .string path := by
    cases v with
    | string s => exact congrArg Json.string (Option.some.inj hpath)
    | int z => cases z <;> cases hpath
    | _ => cases hpath
  exact hv ▸ Order.mem_of_mem_arrange hm

/-- A record whose further members have no text under `$ref` is told from a reference. -/
theorem reference?_eq_none {table : Table} {extensions : Entries Json}
    (hnames : "$ref" ∉ table.names) (h : holdsReference extensions = false) :
    ((values order).display (.object (table.members ++ extensions))).reference? = none := by
  cases hr : ((values order).display (.object (table.members ++ extensions))).reference? with
  | none => rfl
  | some path =>
    rcases List.mem_append.mp (mem_of_reference? hr) with hm | hm
    · exact absurd (List.mem_map_of_mem (Table.mem_members.mp hm)) hnames
    · rw [holdsReference, List.any_eq_false] at h
      exact absurd rfl (h _ hm)

/-- A reference is printed as one. -/
theorem echo_reference {room : Nat} {datum : Datum} {path : String}
    (hs : (values order).holds room datum) (hr : datum.reference? = some path) :
    (referenceJson path).Within room ∧
      ((values order).display (referenceJson path)).reference? = some path := by
  obtain ⟨v, hv, rfl⟩ := hs
  constructor
  · cases hv with
    | object => exact .object (List.forall_mem_singleton.mpr (.string path))
    | @int _ z => cases z <;> cases hr
    | array => cases hr
    | _ => cases hr
  · rw [referenceJson, values_display, Json.arranged_object]
    cases order <;> rfl

theorem Referable.echoes
    (h : (values order).Echoes read read print fun a => inline a = true)
    (hinline : ∀ a, inline a = true → ((values order).display (print a)).reference? = none) :
    (values order).Echoes (Referable.ofDatum? read) (Referable.ofDatum? read)
      (Referable.toJson print) fun r => r.isUnambiguous inline = true := by
  intro room datum referable hs hr hok
  unfold Referable.ofDatum? at hr
  split at hr
  next path hpath =>
    cases hr
    obtain ⟨hfits, hagain⟩ := echo_reference hs hpath
    exact ⟨hfits, fun _ => rfl, by rw [Referable.ofDatum?, Referable.toJson, hagain]⟩
  next =>
    obtain ⟨a, ha, rfl⟩ := Option.map_eq_some_iff.mp hr
    have hecho := h hs ha hok
    refine ⟨hecho.fits, hecho.there, ?_⟩
    rw [Referable.ofDatum?, Referable.toJson, hinline a hok, hecho.again]
    rfl

theorem SchemaNode.exists_toJson (node : SchemaNode) :
    ∃ members, node.toJson = .object members := by
  cases node with
  | ref path => exact ⟨_, rfl⟩
  | inline schema => exact ⟨_, SchemaNode.toJson_inline schema⟩

/-- The induction is on the bound of the first reading. The second has no bound of its own, since
what is printed may be nested less deep than what was read. -/
theorem SchemaNode.echoesWithin (depth : Nat) :
    (values order).Echoes (SchemaNode.ofDatumWithin? depth) SchemaNode.ofDatum? SchemaNode.toJson
      fun node => node.isUnambiguous = true := by
  induction depth with
  | zero => exact fun _ _ _ _ hr => by cases hr
  | succ depth ih =>
    intro room datum node hs hr hok
    rw [SchemaNode.ofDatumWithin?] at hr
    split at hr
    next path hpath =>
      cases hr
      obtain ⟨hfits, hagain⟩ := echo_reference hs hpath
      exact ⟨hfits, fun _ => rfl, by rw [SchemaNode.ofDatum?_eq, SchemaNode.toJson, hagain]⟩
    next =>
      obtain ⟨schema, hschema, rfl⟩ := Option.map_eq_some_iff.mp hr
      rw [SchemaNode.isUnambiguous_inline] at hok
      have hecho := SchemaOf.echoes SchemaNode.exists_toJson ih hs hschema hok
      have htold : holdsReference schema.extensions = false := by
        simp only [SchemaOf.isUnambiguous, Bool.and_eq_true, Bool.not_eq_true'] at hok
        exact hok.1.1.1.1.1.1
      have hinline : ((values order).display (schema.toJson SchemaNode.toJson)).reference? = none :=
        reference?_eq_none (by simp [SchemaOf.table, Table.names]) htold
      rw [SchemaNode.toJson_inline]
      refine ⟨hecho.fits, hecho.there, ?_⟩
      rw [SchemaNode.ofDatum?_eq, hinline, hecho.again]
      rfl

theorem SchemaNode.echoes :
    (values order).Echoes SchemaNode.ofDatum? SchemaNode.ofDatum? SchemaNode.toJson
      fun node => node.isUnambiguous = true :=
  fun _ _ _ hs hr hok => SchemaNode.echoesWithin _ hs hr hok

theorem Encoding.echoes :
    (values order).Echoes Encoding.ofDatum? Encoding.ofDatum? Encoding.toJson fun _ => True := by
  intro room datum encoding hs hr _
  obtain ⟨fields, hf, hr⟩ := Encoding.ofDatum?_eq_some.mp hr
  obtain ⟨left, rfl, hfields⟩ := (values order).of_fields hs hf
  have hanswers := (answers_optional hfields echoes_string hr fun _ _ => trivial).cons answers_nil
  obtain ⟨hfits, contentType, -⟩ :=
    hanswers.record encoding.table (by simp [table, Table.names])
  rw [Encoding.toJson_eq]
  exact ⟨hfits, fun _ => rfl, Encoding.ofDatum?_eq_some.mpr
    ⟨_, (values order).fields_display _ _, contentType⟩⟩

theorem MediaType.echoes :
    (values order).Echoes MediaType.ofDatum? MediaType.ofDatum? MediaType.toJson
      fun media => media.isUnambiguous = true := by
  intro room datum media hs hr hok
  obtain ⟨fields, hf, hr⟩ := MediaType.ofDatum?_eq_some.mp hr
  obtain ⟨hsettles, left, rfl, hfields⟩ := (values order).of_members hs hf
  have hanswers :=
    (answers_optional hfields SchemaNode.echoes hr.schema ((Option.all_eq_true _ _).mp hok)).cons <|
    (answers_entries hfields Encoding.echoes hr.encoding fun _ _ => trivial).cons answers_nil
  obtain ⟨hfits, ⟨schema, encoding, -⟩, extensions⟩ :=
    hanswers.extended media.table (by simp [table, Table.names]) echoes_json hfields
      hsettles hr.extensions
  rw [MediaType.toJson_eq]
  exact ⟨hfits, fun _ => rfl, MediaType.ofDatum?_eq_some.mpr
    ⟨_, (values order).members_display _, schema, encoding, extensions⟩⟩

theorem ParameterLocation.echoes :
    (values order).Echoes ParameterLocation.ofDatum? ParameterLocation.ofDatum?
      (fun location => .string location.name) fun _ => True :=
  echoes_atom (fun _ _ => .string _) (fun _ => rfl) fun location => by cases location <;> rfl

theorem Parameter.echoes :
    (values order).Echoes Parameter.ofDatum? Parameter.ofDatum? Parameter.toJson
      fun parameter => parameter.isUnambiguous = true := by
  intro room datum parameter hs hr hok
  simp only [Parameter.isUnambiguous, unambiguousContent, Bool.and_eq_true, List.all_eq_true] at hok
  obtain ⟨hschema, hcontent⟩ := hok
  obtain ⟨fields, hf, hr⟩ := Parameter.ofDatum?_eq_some.mp hr
  obtain ⟨left, rfl, hfields⟩ := (values order).of_fields hs hf
  have hanswers :=
    (answers_demand hfields echoes_string hr.name trivial).cons <|
    (answers_demand hfields ParameterLocation.echoes hr.location trivial).cons <|
    (answers_optional hfields echoes_string hr.description fun _ _ => trivial).cons <|
    (answers_shown hfields echoes_bool hr.required trivial (.bool false) rfl).cons <|
    (answers_optional hfields echoes_bool hr.deprecated fun _ _ => trivial).cons <|
    (answers_optional hfields SchemaNode.echoes hr.schema
      ((Option.all_eq_true _ _).mp hschema)).cons <|
    (answers_entries hfields MediaType.echoes hr.content hcontent).cons answers_nil
  obtain ⟨hfits, name, location, description, required, deprecated, schema, content, -⟩ :=
    hanswers.record parameter.table
      (show (Parameter.fields.map Field.name).Nodup by decide)
  rw [Parameter.toJson_eq]
  exact ⟨hfits, fun _ => rfl, Parameter.ofDatum?_eq_some.mpr ⟨_, (values order).fields_display _ _,
    name, location, description, required, deprecated, schema, content⟩⟩

/-- A parameter keeps no further members. -/
theorem Parameter.reference?_toJson (parameter : Parameter) :
    ((values order).display parameter.toJson).reference? = none := by
  have hnone : ((values order).display (.object (parameter.table.members ++ []))).reference? =
      none := reference?_eq_none (by simp [table, Table.names]) rfl
  rwa [List.append_nil, ← Parameter.toJson_eq] at hnone

theorem RequestBody.echoes :
    (values order).Echoes RequestBody.ofDatum? RequestBody.ofDatum? RequestBody.toJson
      fun body => body.isUnambiguous = true := by
  intro room datum body hs hr hok
  simp only [RequestBody.isUnambiguous, unambiguousContent, Bool.and_eq_true,
    List.all_eq_true] at hok
  obtain ⟨fields, hf, hr⟩ := RequestBody.ofDatum?_eq_some.mp hr
  obtain ⟨hsettles, left, rfl, hfields⟩ := (values order).of_members hs hf
  have hanswers :=
    (answers_optional hfields echoes_string hr.description fun _ _ => trivial).cons <|
    (answers_demand hfields (echoes_entries MediaType.echoes) hr.content hok.2).cons <|
    (answers_shown hfields echoes_bool hr.required trivial (.bool false) rfl).cons answers_nil
  obtain ⟨hfits, ⟨description, content, required, -⟩, extensions⟩ :=
    hanswers.extended body.table (by simp [table, Table.names]) echoes_json hfields
      hsettles hr.extensions
  rw [RequestBody.toJson_eq]
  exact ⟨hfits, fun _ => rfl, RequestBody.ofDatum?_eq_some.mpr
    ⟨_, (values order).members_display _, description, content, required, extensions⟩⟩

theorem RequestBody.reference?_toJson (body : RequestBody) (h : body.isUnambiguous = true) :
    ((values order).display body.toJson).reference? = none := by
  rw [RequestBody.isUnambiguous, Bool.and_eq_true, Bool.not_eq_true'] at h
  rw [RequestBody.toJson_eq]
  exact reference?_eq_none (by simp [table, Table.names]) h.1

theorem Response.echoes :
    (values order).Echoes Response.ofDatum? Response.ofDatum? Response.toJson
      fun response => response.isUnambiguous = true := by
  intro room datum response hs hr hok
  simp only [Response.isUnambiguous, unambiguousContent, Bool.and_eq_true, List.all_eq_true] at hok
  obtain ⟨fields, hf, hr⟩ := Response.ofDatum?_eq_some.mp hr
  obtain ⟨hsettles, left, rfl, hfields⟩ := (values order).of_members hs hf
  have hanswers :=
    (answers_shown hfields echoes_string hr.description trivial (.string "") rfl).cons <|
    (answers_entries hfields MediaType.echoes hr.content hok.2).cons answers_nil
  obtain ⟨hfits, ⟨description, content, -⟩, extensions⟩ :=
    hanswers.extended response.table (by simp [table, Table.names]) echoes_json hfields
      hsettles hr.extensions
  rw [Response.toJson_eq]
  exact ⟨hfits, fun _ => rfl, Response.ofDatum?_eq_some.mpr
    ⟨_, (values order).members_display _, description, content, extensions⟩⟩

theorem Response.reference?_toJson (response : Response) (h : response.isUnambiguous = true) :
    ((values order).display response.toJson).reference? = none := by
  rw [Response.isUnambiguous, Bool.and_eq_true, Bool.not_eq_true'] at h
  rw [Response.toJson_eq]
  exact reference?_eq_none (by simp [table, Table.names]) h.1

end

end ApiAtlas
