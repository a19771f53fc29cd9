import ApiAtlas.Proofs.ErrorLocations
import ApiAtlas.Proofs.ReferenceChains

namespace ApiAtlas

open Resolving

theorem parentPointer_below {member : String} (h : '/' ∉ member.toList) (pointer : String) :
    parentPointer (below pointer member) = pointer := by
  have hreverse : (below pointer member).toList.reverse =
      member.toList.reverse ++ '/' :: pointer.toList.reverse := by
    simp [below]
  have hmember : '/' ∉ member.toList.reverse := by simpa using h
  have hcut := cutAt?_eq_some_iff.mpr ⟨hreverse, hmember⟩
  rw [parentPointer, beforeLast, hcut]
  simp [String.ofList_toList]

/-- A fold that may fail keeps what each step keeps. -/
theorem foldlM_kept {α β ε : Type} {step : β → α → Except ε β} {items : List α}
    (keeps : β → Prop) (fails : ε → Prop)
    (h : ∀ item ∈ items, ∀ b, keeps b → (∀ b', step b item = .ok b' → keeps b') ∧
      ∀ error, step b item = .error error → fails error) : ∀ b, keeps b →
    (∀ b', items.foldlM step b = .ok b' → keeps b') ∧
      ∀ error, items.foldlM step b = .error error → fails error := by
  induction items with
  | nil =>
    intro b hb
    rw [List.foldlM_nil]
    refine ⟨fun b' he => ?_, fun error he => ?_⟩
    · cases he
      exact hb
    · cases he
  | cons item rest ih =>
    intro b hb
    have hfirst := h item List.mem_cons_self b hb
    have hrest := ih fun other ho => h other (List.mem_cons_of_mem _ ho)
    rw [List.foldlM_cons]
    cases hs : step b item with
    | ok middle => exact hrest middle (hfirst.1 middle hs)
    | error error =>
      refine ⟨fun b' he => ?_, fun other he => ?_⟩
      · cases he
      · cases he
        exact hfirst.2 error hs

theorem Referable.follow_inline {α : Type} {kind : Section} {table : Entries (Referable α)}
    {location : String} {value result : α}
    (h : (Referable.inline value).follow kind table location = .ok result) : value = result := by
  rw [follow, followWithin_inline] at h
  exact Except.ok.inj h

theorem mem_of_chosenContent {content : Entries MediaType} {chosen : String × MediaType}
    (h : Surroundings.chosenContent content = some chosen) : chosen ∈ content := by
  unfold Surroundings.chosenContent at h
  split at h
  next found hfound =>
    cases h
    exact List.mem_of_find?_eq_some hfound
  next => exact List.mem_of_mem_head? h

theorem Referable.location_of_follow {α : Type} {kind : Section} {table : Entries (Referable α)}
    {location : String} {node : Referable α} {error : ResolveError}
    (h : node.follow kind table location = .error error) : error.location = location := by
  have hmeets : node.Meets kind table location (.error error) := h ▸ meets_follow
  cases hmeets <;> rfl

namespace Document

variable {document : Document} {endpoint : Endpoint} {place : String}

theorem holds_item {path : String} {item : PathItem} (h : (path, item) ∈ document.paths) :
    document.Holds (below "#/paths" (escapeToken path)) item.toJson := by
  have hroot := Holds.here document
  rw [toJson_eq] at hroot
  refine hroot.mapMember "paths" (fun v hv => ?_) h
  apply Json.mem_inside
  rw [Table.mem_members]
  simp [table, hv]

theorem mem_endpoints (h : endpoint ∈ document.endpoints) :
    (endpoint.path, endpoint.item) ∈ document.paths ∧
      endpoint.item.operation? endpoint.method = some endpoint.operation := by
  unfold endpoints at h
  obtain ⟨⟨path, item⟩, hp, hm⟩ := List.mem_flatMap.mp h
  obtain ⟨method, -, hmethod⟩ := List.mem_filterMap.mp hm
  obtain ⟨operation, ho, rfl⟩ := Option.map_eq_some_iff.mp hmethod
  exact ⟨hp, ho⟩

theorem parentPointer_endpoint (endpoint : Endpoint) :
    parentPointer endpoint.pointer = below "#/paths" (escapeToken endpoint.path) := by
  apply parentPointer_below
  cases endpoint.method <;> decide

theorem holds_operation (h : endpoint ∈ document.endpoints) :
    document.Holds endpoint.pointer endpoint.operation.toJson := by
  obtain ⟨hp, ho⟩ := mem_endpoints h
  have hitem := holds_item hp
  rw [PathItem.toJson_eq] at hitem
  have hkey : escapeToken endpoint.method.key = endpoint.method.key := by
    cases endpoint.method <;> decide
  have hrow : (endpoint.method.key, some endpoint.operation.toJson) ∈ endpoint.item.table := by
    unfold PathItem.operation? at ho
    cases hm : endpoint.method <;>
      simp only [hm] at ho <;> simp [PathItem.table, Method.key, ho]
  have hmember := hitem.member _ (Table.mem_members.mpr hrow)
  rw [hkey] at hmember
  exact hmember

theorem holds_body (h : endpoint ∈ document.endpoints) {node : Referable RequestBody}
    (hn : endpoint.operation.requestBody = some node) :
    document.Holds (below endpoint.pointer "requestBody") (node.toJson RequestBody.toJson) := by
  have hoperation := holds_operation h
  rw [Operation.toJson_eq] at hoperation
  apply hoperation.inside "requestBody"
  apply Table.mem_inside
  simp [Operation.table, hn]

theorem holds_response (h : endpoint ∈ document.endpoints) {key : String}
    {node : Referable Response} (hn : (key, node) ∈ endpoint.operation.responses.entries) :
    document.Holds (below (below endpoint.pointer "responses") (escapeToken key))
      (node.toJson Response.toJson) := by
  have hoperation := holds_operation h
  rw [Operation.toJson_eq] at hoperation
  have hmember : (key, node.toJson Response.toJson) ∈ endpoint.operation.responses.members :=
    List.mem_append_left _ (List.mem_map.mpr ⟨_, hn, rfl⟩)
  have hobject : Json.objectIfAny endpoint.operation.responses.members =
      some (.object endpoint.operation.responses.members) := by
    cases hw : endpoint.operation.responses.members with
    | nil => simp [hw] at hmember
    | cons first rest => rfl
  have hrow : ("responses", some (.object endpoint.operation.responses.members)) ∈
      endpoint.operation.table := by simp [Operation.table, hobject]
  have hresponses := hoperation.inside "responses" (Table.mem_inside hrow)
  exact hresponses.member key hmember

theorem Lists.holds {node : Referable Parameter} (h : document.Lists node place) :
    document.Holds place (node.toJson Parameter.toJson) := by
  cases h with
  | @shared endpoint mem index _ hi =>
    have hitem := holds_item (mem_endpoints mem).1
    rw [PathItem.toJson_eq, ← parentPointer_endpoint] at hitem
    refine hitem.listItem "parameters" (fun v hv => ?_) hi
    apply Json.mem_inside
    rw [Table.mem_members]
    simp [PathItem.table, hv]
  | @own endpoint mem index _ hi =>
    have hoperation := holds_operation mem
    rw [Operation.toJson_eq] at hoperation
    refine hoperation.listItem "parameters" (fun v hv => ?_) hi
    apply Table.mem_inside
    simp [Operation.table, hv]

/-- The parameter is listed at the place, or a reference that leads to it. -/
def Sends (document : Document) (listed : Surroundings.Listed) : Prop :=
  document.Lists (.inline listed.1) listed.2 ∨ ∃ path, document.Lists (.ref path) listed.2

theorem Sends.stands {listed : Surroundings.Listed} (h : document.Sends listed)
    {schema : SchemaNode} (hs : listed.1.valueSchema? = some schema) :
    document.Stands schema (below listed.2 "schema") := by
  rcases h with hl | ⟨path, hl⟩
  · cases hp : listed.1.schema with
    | none => exact .inr (.content hl hp)
    | some own =>
      have he : own = schema := by simpa [Parameter.valueSchema?, hp] using hs
      subst he
      have hparameter : document.Holds listed.2 listed.1.toJson := hl.holds
      rw [Parameter.toJson_eq] at hparameter
      apply Or.inl
      apply hparameter.member "schema"
      rw [Table.mem_members]
      simp [Parameter.table, hp]
  · exact .inr (.parameter hl)

theorem MediaType.stands {media : MediaType} (h : document.Holds place media.toJson ∨
      document.Astray place) {schema : SchemaNode} (hs : media.schema = some schema) :
    document.Stands schema (below place "schema") := by
  rcases h with held | lost
  · rw [MediaType.toJson_eq] at held
    apply Or.inl
    apply held.inside "schema"
    apply Table.mem_inside
    simp [MediaType.table, hs]
  · exact .inr (lost.further _)

end Document

namespace Surroundings

variable {document : Document} {around : Surroundings} {errand : Errand} {endpoint : Endpoint}
  {media : MediaType} {pos : Position}

theorem listParameters_sends (around : Surroundings) {parent : String} {nodes : List (Referable Parameter)}
    {listed : List ((String × ParameterLocation) × Listed)}
    (hnodes : ∀ (index : Nat) (node : Referable Parameter), nodes[index]? = some node →
      document.Lists node (below (below parent "parameters") (toString index)))
    (hlisted : ∀ pair ∈ listed, document.Sends pair.2) :
    (∀ result, around.listParameters parent listed nodes = .ok result →
      ∀ pair ∈ result, document.Sends pair.2) ∧
    ∀ error, around.listParameters parent listed nodes = .error error →
      document.Explains error.location := by
  unfold listParameters
  refine foldlM_kept (fun (listed : List ((String × ParameterLocation) × Listed)) =>
    ∀ pair ∈ listed, document.Sends pair.2)
    (fun error : ResolveError => document.Explains error.location) ?_ listed hlisted
  rintro ⟨node, index⟩ hm listed hlisted
  have hlists := hnodes index node (List.mem_zipIdx_iff_getElem?.mp hm)
  simp only [bind, Except.bind, pure, Except.pure]
  cases hf : node.follow .parameters around.components.parameters
      (below (below parent "parameters") (toString index)) with
  | error error =>
    refine ⟨fun result he => ?_, fun other he => ?_⟩
    · cases he
    · cases he
      rw [Referable.location_of_follow hf]
      exact .inl ⟨_, hlists.holds⟩
  | ok parameter =>
    refine ⟨fun result he => ?_, fun other he => ?_⟩
    · cases he
      intro pair hp
      rcases Entries.mem_set hp with rfl | hp
      · cases node with
        | inline value =>
          cases Referable.follow_inline hf
          exact .inl hlists
        | ref path => exact .inr ⟨path, hlists⟩
      · exact hlisted pair hp
    · cases he

theorem effectiveParameters_sends (around : Surroundings) (h : endpoint ∈ document.endpoints) :
    (∀ result, around.effectiveParameters endpoint endpoint.pointer = .ok result →
      ∀ listed ∈ result, document.Sends listed) ∧
    ∀ error, around.effectiveParameters endpoint endpoint.pointer = .error error →
      document.Explains error.location := by
  have hnone : ∀ pair ∈ ([] : List ((String × ParameterLocation) × Listed)),
      document.Sends pair.2 := fun _ hm => absurd hm List.not_mem_nil
  have hshared := listParameters_sends around
    (fun _ _ hn => Document.Lists.shared h hn) hnone
  unfold effectiveParameters
  cases hs : around.listParameters (parentPointer endpoint.pointer) []
      endpoint.item.parameters with
  | error error =>
    refine ⟨fun result he => ?_, fun other he => ?_⟩
    · cases he
    · cases he
      exact hshared.2 error hs
  | ok shared =>
    have hown := listParameters_sends around
      (fun _ _ hn => Document.Lists.own h hn) (hshared.1 shared hs)
    simp only [bind, Except.bind, pure, Except.pure]
    cases ho : around.listParameters endpoint.pointer shared endpoint.operation.parameters with
    | error error =>
      refine ⟨fun result he => ?_, fun other he => ?_⟩
      · cases he
      · cases he
        exact hown.2 error ho
    | ok listed =>
      refine ⟨fun result he => ?_, fun other he => ?_⟩
      · cases he
        intro entry hm
        obtain ⟨pair, hp, rfl⟩ := List.mem_map.mp hm
        exact hown.1 listed ho pair hp
      · cases he

section
variable (hschemas : around.registry.schemas = document.schemas)
include hschemas

theorem resolveInput_blames {listed : Listed} (h : document.Sends listed) :
    Blames document.Explains (around.resolveInput errand listed) := by
  obtain ⟨parameter, location⟩ := listed
  unfold resolveInput
  simp only
  cases hs : parameter.valueSchema? with
  | none =>
    simp only [pure_bind]
    exact Blames.push.bind fun id => Blames.pure
  | some schema =>
    have hstands := h.stands hs
    simp only [pure_bind]
    refine Blames.bind (Registry.resolve_blames hschemas ?_) fun model => Blames.pure
    exact hstands

theorem resolveInputs_blames (hp : errand.pointer = endpoint.pointer)
    (h : endpoint ∈ document.endpoints) :
    Blames document.Explains (around.resolveInputs errand endpoint) := by
  unfold resolveInputs
  rw [hp]
  have hsends := effectiveParameters_sends around h
  refine Blames.lift_bind (fun listed hl => ?_) hsends.2
  exact Blames.mapM fun entry hm => resolveInput_blames hschemas (hsends.1 listed hl entry hm)

theorem optionalModel_blames
    (h : ∀ schema, media.schema = some schema → document.Stands schema pos.pointer) :
    Blames document.Explains (around.optionalModel media pos) := by
  unfold optionalModel
  cases hs : media.schema with
  | none => exact Blames.pure
  | some schema =>
    simp only [map_eq_pure_bind]
    exact (Registry.resolve_blames hschemas (h schema hs)).bind fun model => Blames.pure

theorem modelOrFreeForm_blames
    (h : ∀ schema, media.schema = some schema → document.Stands schema pos.pointer) :
    Blames document.Explains (around.modelOrFreeForm media pos) := by
  unfold modelOrFreeForm
  cases hs : media.schema with
  | none => exact Blames.push.bind fun id => Blames.pure
  | some schema => exact Registry.resolve_blames hschemas (h schema hs)

theorem resolvePayload_blames {name : String}
    (h : ∀ schema, media.schema = some schema → document.Stands schema pos.pointer) :
    Blames document.Explains (around.resolvePayload name media pos) := by
  have hany := modelOrFreeForm_blames hschemas h
  have hoptional := optionalModel_blames hschemas h
  unfold resolvePayload
  split
  next => exact hany.bind fun model => Blames.pure
  next =>
    split
    next => exact hany.bind fun model => Blames.pure
    next =>
      split
      next => exact Blames.pure
      next =>
        split
        next => exact hoptional.bind fun model => Blames.get.bind fun arena => Blames.pure
        next => exact hoptional.bind fun model => Blames.pure

theorem resolveBody_blames (hp : errand.pointer = endpoint.pointer)
    (h : endpoint ∈ document.endpoints) {node : Referable RequestBody}
    (hn : endpoint.operation.requestBody = some node) :
    Blames document.Explains (around.resolveBody errand node) := by
  have hbody := Document.holds_body h hn
  unfold resolveBody
  rw [hp]
  refine Blames.lift_bind (fun body hf => ?_) fun error he => ?_
  · refine (Blames.mapM fun pair hm => ?_).bind fun types => Blames.pure
    obtain ⟨name, media⟩ := pair
    refine Blames.bind (resolvePayload_blames hschemas fun schema hs => ?_) fun payload =>
      Blames.pure
    refine Document.MediaType.stands ?_ hs
    cases node with
    | ref path => exact .inr (((Document.Astray.body h hn).further _))
    | inline value =>
      have he := Referable.follow_inline hf
      subst he
      have hvalue : document.Holds (below endpoint.pointer "requestBody") value.toJson := hbody
      rw [RequestBody.toJson_eq] at hvalue
      apply Or.inl
      have hrow : ("content", some (.object (membersOf MediaType.toJson value.content))) ∈
          value.table := by simp [RequestBody.table]
      have hcontent := hvalue.inside "content" (Table.mem_inside hrow)
      exact hcontent.member name (List.mem_map.mpr ⟨_, hm, rfl⟩)
  · rw [Referable.location_of_follow he]
    exact .inl ⟨_, hbody⟩

theorem resolveReturn_blames (hp : errand.pointer = endpoint.pointer)
    (h : endpoint ∈ document.endpoints) {primary : Bool} {key : String}
    {node : Referable Response} (hn : (key, node) ∈ endpoint.operation.responses.entries) :
    Blames document.Explains (around.resolveReturn errand primary key node) := by
  have hresponse := Document.holds_response h hn
  unfold resolveReturn
  rw [hp]
  simp only
  cases Status.parse key with
  | none => exact Blames.throw (.inl ⟨_, hresponse⟩)
  | some status =>
    refine Blames.lift_bind (fun response hf => ?_) fun error he => ?_
    · cases hc : chosenContent response.content with
      | none =>
        simp only [pure_bind]
        exact Blames.pure
      | some chosen =>
        obtain ⟨name, media⟩ := chosen
        refine Blames.bind (optionalModel_blames hschemas fun schema hs => ?_) fun model =>
          Blames.pure
        refine Document.MediaType.stands ?_ hs
        cases node with
        | ref path => exact .inr ((Document.Astray.response h hn).further _)
        | inline value =>
          have he := Referable.follow_inline hf
          subst he
          have hvalue : document.Holds _ value.toJson := hresponse
          rw [Response.toJson_eq] at hvalue
          apply Or.inl
          refine hvalue.mapMember "content" (fun v hv => ?_) (mem_of_chosenContent hc)
          apply Table.mem_inside
          simp [Response.table, hv]
    · rw [Referable.location_of_follow he]
      exact .inl ⟨_, hresponse⟩

theorem resolveRoute_blames (h : endpoint ∈ document.endpoints) :
    Blames document.Explains (around.resolveRoute endpoint) := by
  have hreturns : ∀ errand : Errand, errand.pointer = endpoint.pointer →
      Blames document.Explains
        (around.resolveReturns errand endpoint.operation.responses) := by
    intro errand hp
    unfold resolveReturns
    refine (Blames.mapM fun item hm => ?_).bind fun types => Blames.pure
    obtain ⟨⟨key, node⟩, index⟩ := item
    exact resolveReturn_blames hschemas hp h (List.fst_mem_of_mem_zipIdx hm)
  unfold resolveRoute
  refine (resolveInputs_blames hschemas rfl h).bind fun input => ?_
  simp only
  cases hn : endpoint.operation.requestBody with
  | none => exact (hreturns _ rfl).bind fun returns => Blames.pure
  | some node =>
    exact (resolveBody_blames hschemas rfl h hn).bind fun body =>
      (hreturns _ rfl).bind fun returns => Blames.pure

end

end Surroundings

namespace Document

variable {document : Document} {registry : Registry} {around : Surroundings} {arena after : Arena}
  {report : Report}

theorem explains_of_attempt {α : Type} {work : Resolving α} {error : ResolveError}
    (hw : Blames document.Explains work) (h : attempt work arena = (.error error, after)) :
    document.Explains error.location := by
  obtain ⟨last, ho⟩ := outcome_of_attempt_error h
  exact hw arena error last ho

theorem explains_of_components (hschemas : registry.schemas = document.schemas)
    {names : List String} (h : registry.Sweeps names arena report after)
    (hnames : ∀ name ∈ names, name ∈ Entries.keys document.schemas) :
    ∀ entry ∈ report, document.Explains entry.error.location := by
  induction h with
  | done => simp
  | noted _ _ ih => exact ih fun name hm => hnames name (List.mem_cons_of_mem _ hm)
  | kept _ _ _ _ _ _ ih => exact ih fun name hm => hnames name (List.mem_cons_of_mem _ hm)
  | failed _ _ he _ ih =>
    intro entry hm
    rcases List.mem_cons.mp hm with rfl | hm
    · exact explains_of_attempt
        (Registry.component_blames hschemas (hnames _ List.mem_cons_self)) he
    · exact ih (fun name hm => hnames name (List.mem_cons_of_mem _ hm)) entry hm

theorem explains_of_routes (hschemas : around.registry.schemas = document.schemas)
    {endpoints : List Endpoint} {routes : List Route}
    (h : around.Sweeps endpoints arena routes report after)
    (hmem : ∀ endpoint ∈ endpoints, endpoint ∈ document.endpoints) :
    ∀ entry ∈ report, document.Explains entry.error.location := by
  induction h with
  | done => simp
  | kept _ _ _ _ _ ih => exact ih fun endpoint hm => hmem endpoint (List.mem_cons_of_mem _ hm)
  | failed he _ ih =>
    intro entry hm
    rcases List.mem_cons.mp hm with rfl | hm
    · exact explains_of_attempt
        (Surroundings.resolveRoute_blames hschemas (hmem _ List.mem_cons_self)) he
    · exact ih (fun endpoint hm => hmem endpoint (List.mem_cons_of_mem _ hm)) entry hm

/-- The document has a value at the location of each entry of its report, unless the location is
astray. -/
theorem report_located {settings : Settings} {entry : ReportEntry}
    (h : entry ∈ (document.resolve settings).2.2) :
    (∃ value, document.Holds entry.error.location value) ∨
      document.Astray entry.error.location := by
  rw [resolve_eq] at h
  rcases List.mem_append.mp h with hc | hr
  · exact explains_of_components rfl (sweeps_components settings document) (fun _ hm => hm) entry hc
  · exact explains_of_routes rfl (sweeps_routes settings document) (fun _ hm => hm) entry hr

/-- A document with a component whose second property refers to nothing. -/
def brokenDocument : Document where
  openapi := "3.0.3"
  info := { title := "Broken", version := "1" }
  components := some { schemas := [("Pet", .inline { properties :=
    [("name", .inline { types := some (.single .string) }),
      ("n/a", .ref "#/components/schemas/Tag")] })] }

theorem report_located_broken :
    (∃ value, brokenDocument.Holds "#/components/schemas/Pet/properties/n~1a" value) ∨
      brokenDocument.Astray "#/components/schemas/Pet/properties/n~1a" := by
  have hreport : (brokenDocument.resolve {}).2.2 = [⟨.component "Pet",
      .unresolvedRef "#/components/schemas/Tag"
        "#/components/schemas/Pet/properties/n~1a"⟩] := by decide +kernel
  exact report_located (hreport ▸ List.mem_cons_self)

/-- A document with one operation. -/
def ofOperation (operation : Operation) (components : Components) : Document where
  openapi := "3.0.3"
  info := { title := "Stray", version := "1" }
  paths := [("/pets", { get := some operation })]
  components := some components

/-- Documents with one error each: in a component whose name has a `/`, in the items of a schema of
two types, in a parameter with its schema below a media type, and in a parameter, a body and a
response that are referred to. -/
def strayDocuments : List Document :=
  let broken : SchemaNode := .ref "Tag"
  let content : Entries MediaType := [("text/plain", { schema := some broken })]
  [ofOperation {} { schemas := [("a/b", broken)] },
    ofOperation {} { schemas := [("Pet", .inline {
      types := some (.several [.array, .string]), items := some broken })] },
    ofOperation { parameters := [.inline { name := "id", location := .query, content }] } {},
    ofOperation { parameters := [.ref "#/components/parameters/Id"] }
      { parameters := [("Id", .inline { name := "id", location := .query, schema := broken })] },
    ofOperation { requestBody := some (.ref "#/components/requestBodies/Pet") }
      { requestBodies := [("Pet", .inline { content })] },
    ofOperation { responses := { entries := [("200", .ref "#/components/responses/Pet")] } }
      { responses := [("Pet", .inline { content })] }]

/-- None of them has a value at the location of its error. -/
theorem strayDocuments_not_located : strayDocuments.Forall fun document =>
    ∃ entry ∈ (document.resolve {}).2.2, ∀ value, ¬document.Holds entry.error.location value := by
  have hempty : (strayDocuments.all fun document => (document.resolve {}).2.2.any fun entry =>
      (document.valuesAt entry.error.location).isEmpty) = true := by decide +kernel
  refine List.forall_iff_forall_mem.mpr fun document hd => ?_
  obtain ⟨entry, he, hv⟩ := List.any_eq_true.mp (List.all_eq_true.mp hempty document hd)
  refine ⟨entry, he, fun value hheld => ?_⟩
  rw [Holds, List.isEmpty_iff.mp hv] at hheld
  cases hheld

end Document

end ApiAtlas
