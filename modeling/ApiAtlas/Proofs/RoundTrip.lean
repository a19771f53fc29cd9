import ApiAtlas.Proofs.JsonText
import ApiAtlas.Proofs.ValueEchoes

namespace ApiAtlas

open Medium

theorem Parameter.echoes_node :
    nodes.Echoes (Node.viaDatum (Referable.ofDatum? Parameter.ofDatum?))
      (Node.viaDatum (Referable.ofDatum? Parameter.ofDatum?)) (Referable.toJson Parameter.toJson)
      fun parameter => parameter.isUnambiguous Parameter.isUnambiguous = true :=
  echoes_viaDatum (Referable.echoes Parameter.echoes fun p _ => p.reference?_toJson)

theorem RequestBody.echoes_node :
    nodes.Echoes (Node.viaDatum (Referable.ofDatum? RequestBody.ofDatum?))
      (Node.viaDatum (Referable.ofDatum? RequestBody.ofDatum?))
      (Referable.toJson RequestBody.toJson)
      fun body => body.isUnambiguous RequestBody.isUnambiguous = true :=
  echoes_viaDatum (Referable.echoes RequestBody.echoes RequestBody.reference?_toJson)

theorem Response.echoes_node :
    nodes.Echoes (Node.viaDatum (Referable.ofDatum? Response.ofDatum?))
      (Node.viaDatum (Referable.ofDatum? Response.ofDatum?)) (Referable.toJson Response.toJson)
      fun response => response.isUnambiguous Response.isUnambiguous = true :=
  echoes_viaDatum (Referable.echoes Response.echoes Response.reference?_toJson)

/-- Whether a member of `responses` is an answer or an extension is told by its name. -/
theorem Responses.keys_members_perm {entries : Entries Json} {responses : Responses}
    (h : Responses.ofEntries? entries = some responses) :
    (Entries.keys responses.members).Perm (Entries.keys entries) := by
  obtain ⟨hext, hent⟩ := Responses.ofEntries?_eq_some.mp h
  have hkeys := keys_of_forall₂
    (R := fun (v : Json) r => Referable.ofDatum? Response.ofDatum? v.datum = some r) hent
  have hperm := List.filter_append_perm (fun e : String × Json => isVendor e.1) entries
  rw [Responses.members, Entries.keys_append, membersOf, Entries.keys_map, ← hkeys, hext,
    ← Entries.keys_append]
  exact (List.perm_append_comm.trans hperm).map Prod.fst

/-- Answers and extensions are told apart again. -/
theorem Responses.ofEntries?_append {entries : Entries (Referable Response)}
    {extensions : Entries Json} {write : Referable Response → Json}
    (hvendor : ∀ e ∈ extensions, isVendor e.1 = true)
    (hstatus : ∀ e ∈ entries, isVendor e.1 = false ∧
      Referable.ofDatum? Response.ofDatum? (write e.2).datum = some e.2) :
    Responses.ofEntries? (membersOf write entries ++ extensions) = some ⟨entries, extensions⟩ := by
  have hanswers : ∀ e ∈ membersOf write entries, isVendor e.1 = false :=
    List.forall_mem_map.mpr fun e he => (hstatus e he).1
  rw [Responses.ofEntries?_eq_some, List.filter_append, List.filter_append]
  constructor
  · rw [List.filter_eq_nil_iff.mpr (by simpa using hanswers), List.nil_append,
      List.filter_eq_self.mpr hvendor]
  · rw [List.filter_eq_self.mpr (by simpa using hanswers),
      List.filter_eq_nil_iff.mpr (by simpa using hvendor), List.append_nil, membersOf,
      List.forall₂_map_left_iff]
    exact List.forall₂_same.mpr fun e he => ⟨rfl, (hstatus e he).2⟩

theorem arranged_of_readEntries {left : Nat} {members : List (String × Node)}
    {entries : Entries Json}
    (hmembers : ∀ m ∈ members, m.2.OfJson left)
    (hread : readEntries Node.json? members = some entries) :
    ∀ e ∈ entries, ∃ w : Json, w.Within left ∧ e.2 = w.arranged .ascending := by
  intro e hmem
  obtain ⟨pairs, rfl, hp⟩ := readEntries_eq_some.mp hread
  obtain ⟨member, hmember, -, hjson⟩ :=
    forall₂_of_mem_right hp (Entries.mem_of_mem_ofPairs hmem)
  obtain ⟨w, hw, -, he⟩ := Node.OfJson.of_json? (hmembers member hmember) hjson
  exact ⟨w, hw, he⟩

/-- Where no key repeats, the members of a printed object are read as they stand, each value with
its own members in ascending order. -/
theorem readEntries_members {members : List (String × Json)}
    (hnodup : (Entries.keys members).Nodup) :
    (Json.object members).node.members?.bind (readEntries Node.json?) =
      some (members.map (Prod.map id (Json.arranged .ascending))) := by
  have hkeys : Entries.keys (members.map (Prod.map id (Json.arranged .ascending))) =
      Entries.keys members := List.map_map
  rw [Json.members?_node, Option.bind_some]
  refine readEntries_eq_some.mpr ⟨_, (Entries.ofPairs_of_nodup (hkeys ▸ hnodup)).symm, ?_⟩
  rw [List.forall₂_map_left_iff, List.forall₂_map_right_iff]
  exact List.forall₂_same.mpr fun e _ => ⟨rfl, Json.json?_node e.2⟩

theorem Responses.parts_echo {left : Nat} {entries : Entries Json} {responses : Responses}
    (hvalue : ∀ e ∈ entries, ∃ w : Json, w.Within left ∧ e.2 = w.arranged .ascending)
    (hr : Responses.ofEntries? entries = some responses)
    (hok : ∀ e ∈ responses.entries, e.2.isUnambiguous Response.isUnambiguous = true) :
    (∀ e ∈ responses.entries, isVendor e.1 = false ∧ ∃ a,
        (values .ascending).Echo (Referable.ofDatum? Response.ofDatum?) left a
          (e.2.toJson Response.toJson) e.2) ∧
      ∀ e ∈ responses.extensions, isVendor e.1 = true ∧
        ∃ w : Json, w.Within left ∧ e.2 = w.arranged .ascending := by
  obtain ⟨hext, hent⟩ := Responses.ofEntries?_eq_some.mp hr
  constructor
  · intro e hmem
    obtain ⟨entry, hentry, hkey, hresponse⟩ := forall₂_of_mem_right hent hmem
    obtain ⟨hin, htakes⟩ := List.mem_filter.mp hentry
    obtain ⟨w, hw, he⟩ := hvalue entry hin
    rw [Bool.not_eq_true', hkey] at htakes
    exact ⟨htakes, _, Referable.echoes Response.echoes Response.reference?_toJson
      ⟨w, hw, by rw [he]⟩ hresponse (hok e hmem)⟩
  · intro e hmem
    rw [hext] at hmem
    obtain ⟨hin, htakes⟩ := List.mem_filter.mp hmem
    exact ⟨htakes, hvalue e hin⟩

/-- The value of `responses` is read as JSON first, so that what is in place in it is met with its
members in ascending order. -/
theorem Responses.echoes :
    nodes.Echoes Responses.ofNode? Responses.ofNode? (fun responses => .object responses.members)
      fun responses =>
        ∀ e ∈ responses.entries, e.2.isUnambiguous Response.isUnambiguous = true := by
  intro room node responses hs hr hok
  obtain ⟨entries, he, hr⟩ := Option.bind_eq_some_iff.mp hr
  obtain ⟨members, hm, hread⟩ := Option.bind_eq_some_iff.mp he
  obtain ⟨hsettles, left, rfl, hmembers⟩ := nodes.of_members hs hm
  obtain ⟨hstatus, hvendor⟩ :=
    Responses.parts_echo (arranged_of_readEntries hmembers hread) hr hok
  refine ⟨.object fun e hmem => ?_, fun _ => rfl, ?_⟩
  · rcases List.mem_append.mp hmem with hmem | hmem
    · obtain ⟨entry, hentry, rfl⟩ := List.mem_map.mp hmem
      obtain ⟨-, a, hecho⟩ := hstatus entry hentry
      exact hecho.fits
    · obtain ⟨-, w, hw, he⟩ := hvendor e hmem
      exact he ▸ hw.arranged _
  · have hnodup : (Entries.keys responses.members).Nodup := by
      rw [(Responses.keys_members_perm hr).nodup_iff, keys_readEntries hread]
      exact hsettles.nodup
    -- The extensions are in ascending order already, as they were read.
    have hkept : responses.extensions.map (Prod.map id (Json.arranged .ascending)) =
        responses.extensions := by
      refine (List.map_congr_left fun e hmem => ?_).trans (List.map_id _)
      obtain ⟨key, v⟩ := e
      obtain ⟨-, w, -, rfl⟩ := hvendor _ hmem
      exact congrArg (Prod.mk key) w.arranged_arranged
    have hsplit : responses.members.map (Prod.map id (Json.arranged .ascending)) =
        membersOf (fun r => (r.toJson Response.toJson).arranged .ascending) responses.entries ++
          responses.extensions := by
      rw [Responses.members, List.map_append, hkept, membersOf, membersOf, List.map_map]
      rfl
    rw [Responses.ofNode?, Node.entriesOf, nodes_display, readEntries_members hnodup,
      Option.bind_some, hsplit]
    refine Responses.ofEntries?_append (fun e hmem => (hvendor e hmem).1) fun e hmem => ?_
    obtain ⟨htakes, a, hecho⟩ := hstatus e hmem
    exact ⟨htakes, hecho.again⟩

/-- Responses are left out just if there are none. -/
theorem Responses.answers {fields : Fields Node} {left : Nat} {responses : Responses}
    (hs : ∀ field ∈ fields, nodes.holds left field.2)
    (hr : fields.withDefault "responses" Responses.ofNode? {} = some responses)
    (hok : ∀ e ∈ responses.entries, e.2.isUnambiguous Response.isUnambiguous = true) :
    nodes.Answers left [("responses", Json.objectIfAny responses.members)] fun fields =>
      fields.withDefault "responses" Responses.ofNode? {} = some responses := by
  refine answers_withDefault hs Responses.echoes hr hok ?_
  rcases responses with ⟨_ | ⟨e, es⟩, _ | ⟨x, xs⟩⟩
  · exact .inl ⟨rfl, rfl⟩
  all_goals exact .inr ⟨rfl, by simp⟩

theorem Operation.echoes :
    nodes.Echoes Operation.ofNode? Operation.ofNode? Operation.toJson
      fun operation => operation.isUnambiguous = true := by
  intro room node operation hs hr hok
  simp only [Operation.isUnambiguous, Bool.and_eq_true, List.all_eq_true] at hok
  obtain ⟨⟨hparameters, hbody⟩, hresponses⟩ := hok
  obtain ⟨fields, hf, hr⟩ := Operation.ofNode?_eq_some.mp hr
  obtain ⟨hsettles, left, rfl, hfields⟩ := nodes.of_members hs hf
  have hanswers :=
    (answers_optional hfields echoes_text hr.operationId fun _ _ => trivial).cons <|
    (answers_optional hfields echoes_text hr.summary fun _ _ => trivial).cons <|
    (answers_optional hfields echoes_text hr.description fun _ _ => trivial).cons <|
    (answers_list hfields echoes_text hr.tags fun _ _ => trivial).cons <|
    (answers_list hfields Parameter.echoes_node hr.parameters hparameters).cons <|
    (answers_optional hfields RequestBody.echoes_node hr.requestBody
      ((Option.all_eq_true _ _).mp hbody)).cons <|
    (Responses.answers hfields hr.responses hresponses).cons <|
    (answers_optional hfields echoes_truth hr.deprecated fun _ _ => trivial).cons answers_nil
  obtain ⟨hfits, ⟨operationId, summary, description, tags, parameters, requestBody, responses,
    deprecated, -⟩, extensions⟩ :=
    hanswers.extended operation.table (show Operation.members.Nodup by decide)
      (echoes_viaDatum echoes_json) hfields hsettles hr.extensions
  rw [Operation.toJson_eq]
  exact ⟨hfits, fun _ => rfl, Operation.ofNode?_eq_some.mpr ⟨_, nodes.members_display _,
    operationId, summary, description, tags, parameters, requestBody, responses, deprecated,
    extensions⟩⟩

theorem PathItem.echoes :
    nodes.Echoes PathItem.ofNode? PathItem.ofNode? PathItem.toJson
      fun item => item.isUnambiguous = true := by
  intro room node item hs hr hok
  simp only [PathItem.isUnambiguous, Bool.and_eq_true, List.all_eq_true,
    List.forall_mem_cons] at hok
  obtain ⟨hparameters, hget, hpost, hput, hdelete, hpatch, hoptions, hhead, htrace, -⟩ := hok
  obtain ⟨fields, hf, hr⟩ := PathItem.ofNode?_eq_some.mp hr
  obtain ⟨left, rfl, hfields⟩ := nodes.of_fields hs hf
  have hoperation : ∀ {name : String} {o : Option Operation},
      fields.optional name Node.absent? Operation.ofNode? = some o →
      o.all Operation.isUnambiguous = true →
        nodes.Answers left [(name, o.map Operation.toJson)] fun fields =>
          fields.optional name Node.absent? Operation.ofNode? = some o :=
    fun hr hok => answers_optional hfields Operation.echoes hr ((Option.all_eq_true _ _).mp hok)
  have hanswers :=
    (answers_optional hfields echoes_text hr.summary fun _ _ => trivial).cons <|
    (answers_optional hfields echoes_text hr.description fun _ _ => trivial).cons <|
    (answers_list hfields Parameter.echoes_node hr.parameters hparameters).cons <|
    (hoperation hr.get hget).cons <| (hoperation hr.post hpost).cons <|
    (hoperation hr.put hput).cons <| (hoperation hr.delete hdelete).cons <|
    (hoperation hr.patch hpatch).cons <| (hoperation hr.options hoptions).cons <|
    (hoperation hr.head hhead).cons <| (hoperation hr.trace htrace).cons answers_nil
  obtain ⟨hfits, summary, description, parameters, get, post, put, delete, patch, options, head,
    trace, -⟩ := hanswers.record item.table
      (show (PathItem.fields.map Field.name).Nodup by decide)
  rw [PathItem.toJson_eq]
  exact ⟨hfits, fun _ => rfl, PathItem.ofNode?_eq_some.mpr
    ⟨_, nodes.fields_display PathItem.fields item.table.members, summary, description, parameters,
      get, post, put, delete, patch, options, head, trace⟩⟩

theorem Components.echoes :
    nodes.Echoes Components.ofNode? Components.ofNode? Components.toJson
      fun components => components.isUnambiguous = true := by
  intro room node components hs hr hok
  simp only [Components.isUnambiguous, Bool.and_eq_true, List.all_eq_true] at hok
  obtain ⟨⟨⟨hschemas, hresponses⟩, hparameters⟩, hbodies⟩ := hok
  obtain ⟨fields, hf, hr⟩ := Components.ofNode?_eq_some.mp hr
  obtain ⟨left, rfl, hfields⟩ := nodes.of_fields hs hf
  have hanswers :=
    (answers_entries hfields (echoes_viaDatum SchemaNode.echoes) hr.schemas hschemas).cons <|
    (answers_entries hfields Response.echoes_node hr.responses hresponses).cons <|
    (answers_entries hfields Parameter.echoes_node hr.parameters hparameters).cons <|
    (answers_entries hfields RequestBody.echoes_node hr.requestBodies hbodies).cons answers_nil
  obtain ⟨hfits, schemas, responses, parameters, requestBodies, -⟩ :=
    hanswers.record components.table
      (show (Components.fields.map Field.name).Nodup by decide)
  rw [Components.toJson_eq]
  exact ⟨hfits, fun _ => rfl, Components.ofNode?_eq_some.mpr
    ⟨_, nodes.fields_display Components.fields components.table.members, schemas, responses,
      parameters, requestBodies⟩⟩

theorem Info.echoes : nodes.Echoes Info.ofNode? Info.ofNode? Info.toJson fun _ => True := by
  intro room node info hs hr _
  obtain ⟨fields, hf, hr⟩ := Info.ofNode?_eq_some.mp hr
  obtain ⟨left, rfl, hfields⟩ := nodes.of_fields hs hf
  have hanswers :=
    (answers_demand hfields echoes_text hr.title trivial).cons <|
    (answers_optional hfields echoes_text hr.description fun _ _ => trivial).cons <|
    (answers_demand hfields echoes_text hr.version trivial).cons answers_nil
  obtain ⟨hfits, title, description, version, -⟩ :=
    hanswers.record info.table (show (Info.fields.map Field.name).Nodup by decide)
  rw [Info.toJson_eq]
  exact ⟨hfits, fun _ => rfl, Info.ofNode?_eq_some.mpr
    ⟨_, nodes.fields_display Info.fields info.table.members, title, description, version⟩⟩

theorem Server.echoes : nodes.Echoes Server.ofNode? Server.ofNode? Server.toJson fun _ => True := by
  intro room node server hs hr _
  obtain ⟨fields, hf, hr⟩ := Server.ofNode?_eq_some.mp hr
  obtain ⟨left, rfl, hfields⟩ := nodes.of_fields hs hf
  have hanswers :=
    (answers_demand hfields echoes_text hr.url trivial).cons <|
    (answers_optional hfields echoes_text hr.description fun _ _ => trivial).cons answers_nil
  obtain ⟨hfits, url, description, -⟩ :=
    hanswers.record server.table (show (Server.fields.map Field.name).Nodup by decide)
  rw [Server.toJson_eq]
  exact ⟨hfits, fun _ => rfl, Server.ofNode?_eq_some.mpr
    ⟨_, nodes.fields_display Server.fields server.table.members, url, description⟩⟩

namespace Document

theorem echoes :
    nodes.Echoes Document.ofNode? Document.ofNode? Document.toJson
      fun document => document.isUnambiguous = true := by
  intro room node document hs hr hok
  simp only [Document.isUnambiguous, Bool.and_eq_true, List.all_eq_true] at hok
  obtain ⟨fields, hf, hr⟩ := Document.ofNode?_eq_some.mp hr
  obtain ⟨left, rfl, hfields⟩ := nodes.of_fields hs hf
  have hanswers :=
    (answers_demand hfields echoes_text hr.openapi trivial).cons <|
    (answers_demand hfields Info.echoes hr.info trivial).cons <|
    (answers_list hfields Server.echoes hr.servers fun _ _ => trivial).cons <|
    (answers_entries hfields PathItem.echoes hr.paths hok.1).cons <|
    (answers_optional hfields Components.echoes hr.components
      ((Option.all_eq_true _ _).mp hok.2)).cons answers_nil
  obtain ⟨hfits, openapi, info, servers, paths, components, -⟩ :=
    hanswers.record document.table
      (show (Document.fields.map Field.name).Nodup by decide)
  rw [Document.toJson_eq]
  exact ⟨hfits, fun _ => rfl, Document.ofNode?_eq_some.mpr
    ⟨_, nodes.fields_display Document.fields document.table.members, openapi, info, servers, paths,
      components⟩⟩

/-- A document is read back from its own text, whatever text it was read from, if each number with
a fraction or an exponent that it keeps is read back from its shortest text, and no schema, request
body or response in place keeps a text under `$ref`. -/
theorem ofJson_toText {text : String} {document : Document}
    (h : Document.ofJson text = .ok document) (hrefs : document.isUnambiguous = true)
    (hfloats : ∀ x ∈ document.toJson.floats, Json.rereads x = true) :
    Document.ofJson document.toText = .ok document := by
  obtain ⟨node, hn, hd, hv⟩ := ofJson_eq_ok.mp h
  have hecho := Document.echoes (Json.ofJson_of_readNode hn) hd hrefs
  exact ofJson_eq_ok.mpr
    ⟨document.toJson.node, Json.readNode_toText hecho.fits hfloats, hecho.again, hv⟩

/-- A document whose only schema has these members. -/
def ofSchema (members : String) : String :=
  "\x7b\"openapi\":\"3.\",\"info\":\x7b\"title\":\"\",\"version\":\"\"\x7d," ++
  "\"components\":\x7b\"schemas\":\x7b\"A\":\x7b" ++ members ++ "\x7d\x7d\x7d\x7d"

/-- A reference with a number beside it. -/
def referred : String := ofSchema "\"items\":\x7b\"$ref\":\"\"\x7d,\"default\":0.5"

theorem ofJson_toText_referred : ∃ document, Document.ofJson referred = .ok document ∧
    document.isUnambiguous = true ∧ document.toJson.floats ≠ [] ∧
      (∀ x ∈ document.toJson.floats, Json.rereads x = true) ∧
        Document.ofJson document.toText = .ok document := by
  have h : (match Document.ofJson referred with
      | .ok document => document.isUnambiguous && !document.toJson.floats.isEmpty &&
          document.toJson.floats.all Json.rereads
      | .error _ => false) = true := by decide +kernel
  split at h
  next document hd =>
    simp only [Bool.and_eq_true, Bool.not_eq_true', List.isEmpty_eq_false_iff,
      List.all_eq_true] at h
    exact ⟨document, hd, h.1.1, h.1.2, h.2, ofJson_toText hd h.1.1 h.2⟩
  next => cases h

/-- Twice a reference, which is none: the reader keeps the last one as a further member. -/
def twiceReferred : String := ofSchema "\"$ref\":\"\",\"$ref\":\"\",\"x\":null"

/-- A number that is written as `2.7e+32`, which is read as its neighbour. -/
def farNumber : String := ofSchema "\"default\":270e30"

/-- The text of the document that is read from this one holds another document. -/
def changes (text : String) : Bool :=
  match Document.ofJson text with
  | .ok document =>
    match Document.ofJson document.toText with
    | .ok other => other.toJson.compact != document.toJson.compact
    | .error _ => true
  | .error _ => false

theorem of_changes {text : String} (h : changes text = true) : ∃ document,
    Document.ofJson text = .ok document ∧ Document.ofJson document.toText ≠ .ok document := by
  unfold changes at h
  split at h
  next document hd =>
    refine ⟨document, hd, fun hsame => ?_⟩
    rw [hsame] at h
    simp at h
  next => cases h

/-- Neither text holds a document that is read back. -/
theorem not_ofJson_toText :
    (∃ document, Document.ofJson twiceReferred = .ok document ∧
      Document.ofJson document.toText ≠ .ok document) ∧
    ∃ document, Document.ofJson farNumber = .ok document ∧
      Document.ofJson document.toText ≠ .ok document :=
  ⟨of_changes (by decide +kernel), of_changes (by decide +kernel)⟩

end Document

end ApiAtlas
