import ApiAtlas.Proofs.InlineNesting
import ApiAtlas.Proofs.MediaTypes
import ApiAtlas.Proofs.OperationIndependence
import ApiAtlas.Proofs.ReturnedStatuses
import ApiAtlas.Proofs.UsedModels

namespace ApiAtlas

open Relation

/-- What is read off each item of a list comes back as the keys of the results. -/
theorem keys_of_forall₂_some {α κ β : Type} {read : α → Option κ} {items : List α}
    {results : List (κ × β)}
    (h : List.Forall₂ (fun item result => read item = some result.1) items results) :
    results.map Prod.fst = items.filterMap read := by
  induction h with
  | nil => rfl
  | cons hfirst _ ih => rw [List.filterMap_cons, hfirst, List.map_cons, ih]

namespace Surroundings

/-- A schema of an operation: that of a parameter, of a body that is not taken as it is, or of the
content of an answer that counts. -/
inductive Asks (around : Surroundings) (endpoint : Endpoint) : SchemaNode → Prop
  | input {all : List Listed} {listed : Listed} {schema : SchemaNode}
    (lists : around.effectiveParameters endpoint endpoint.pointer = .ok all) (mem : listed ∈ all)
    (typed : listed.1.valueSchema? = some schema) : Asks around endpoint schema
  | body {node : Referable RequestBody} {location : String} {body : RequestBody}
    {content : String × MediaType} {schema : SchemaNode}
    (sent : endpoint.operation.requestBody = some node)
    (leads : node.follow .requestBodies around.components.requestBodies location = .ok body)
    (mem : content ∈ body.content) (read : Media.kind content.1 ≠ .octetStream)
    (typed : content.2.schema = some schema) : Asks around endpoint schema
  | answer {pair : String × Referable Response} {location : String} {response : Response}
    {content : String × MediaType} {schema : SchemaNode}
    (mem : pair ∈ endpoint.operation.responses.entries)
    (leads : pair.2.follow .responses around.components.responses location = .ok response)
    (chosen : chosenContent response.content = some content)
    (typed : content.2.schema = some schema) : Asks around endpoint schema

/-- An operation drops nothing that it has resolved: no schema of it disputes a definition, and no
status is answered twice. -/
structure Frugal (around : Surroundings) (endpoint : Endpoint) : Prop where
  schemas : ∀ node, around.Asks endpoint node →
    around.registry.lookup.Undisputed ∅ (.resolve node)
  answers : (endpoint.operation.responses.entries.filterMap fun pair =>
    Status.parse pair.1).Nodup

variable {around : Surroundings} {errand : Errand} {endpoint : Endpoint} {media : MediaType}
  {pos : Position} {name : String} {node : SchemaNode}

theorem resolveInput_leaves (listed : Listed)
    (hu : ∀ schema, listed.1.valueSchema? = some schema →
      around.registry.lookup.Undisputed ∅ (.resolve schema)) :
    around.registry.Leaves .last (around.resolveInput errand listed)
      fun input => {input.model.id} := by
  unfold resolveInput
  obtain ⟨parameter, location⟩ := listed
  simp only
  cases hs : parameter.valueSchema? with
  | some schema =>
    simp only [pure_bind]
    exact (Registry.resolve_leaves (hu schema hs)).bind_pure fun _ => subset_rfl
  | none =>
    simp only [pure_bind]
    exact (Registry.push_leaves rfl errand.scope).bind_pure fun _ => subset_rfl

theorem resolveInputs_leaves (hp : errand.pointer = endpoint.pointer)
    (hf : around.Frugal endpoint) :
    around.registry.Leaves .last (around.resolveInputs errand endpoint)
      fun inputs => placesOf (inputs.map Input.model) := by
  unfold resolveInputs
  rw [hp]
  refine fun roots => Regime.Runs.lift_bind (fun listed hl => ?_) fun _ _ _ _ => trivial
  refine ((Registry.leaves_mapM listed fun item hm => resolveInput_leaves item fun schema hs =>
    hf.schemas schema (.input hl hm hs)).weaken fun inputs => ?_) roots
  rintro id ⟨input, hm, rfl⟩
  exact ⟨input.model, List.mem_map_of_mem hm, rfl⟩

theorem modelOrFreeForm_leaves (hu : ∀ schema, media.schema = some schema →
      around.registry.lookup.Undisputed ∅ (.resolve schema)) :
    around.registry.Leaves .last (around.modelOrFreeForm media pos)
      fun resolved => placesOf [resolved] := by
  have hplaces : ∀ resolved : Resolved, ({resolved.id} : Set ModelId) ⊆ placesOf [resolved] := by
    rintro resolved id rfl
    exact ⟨resolved, List.mem_singleton_self _, rfl⟩
  unfold modelOrFreeForm
  cases hs : media.schema with
  | some schema => exact (Registry.resolve_leaves (hu schema hs)).weaken hplaces
  | none => exact (Registry.freeForm_leaves pos.scope).weaken hplaces

theorem optionalModel_leaves (hu : ∀ schema, media.schema = some schema →
      around.registry.lookup.Undisputed ∅ (.resolve schema)) :
    around.registry.Leaves .last (around.optionalModel media pos)
      fun resolved => placesOf resolved.toList := by
  unfold optionalModel
  cases hs : media.schema with
  | some schema =>
    simp only [map_eq_pure_bind]
    refine (Registry.resolve_leaves (hu schema hs)).bind_pure fun resolved => ?_
    rintro id rfl
    exact ⟨resolved, List.mem_singleton_self _, rfl⟩
  | none => exact Registry.leaves_pure _

theorem payloadOf_leaves {kind : Media.Kind}
    (hu : kind ≠ .octetStream → ∀ schema, media.schema = some schema →
      around.registry.lookup.Undisputed ∅ (.resolve schema)) (extensions : Entries Json) :
    around.registry.Leaves .last (around.payloadOf kind media pos)
      fun payload => placesOf (Body.models ⟨payload, extensions⟩) := by
  have hany (h : kind ≠ .octetStream) : around.registry.Leaves .last
      (around.modelOrFreeForm media pos) fun resolved => placesOf [resolved] :=
    modelOrFreeForm_leaves (hu h)
  have hoptional (h : kind ≠ .octetStream) : around.registry.Leaves .last
      (around.optionalModel media pos) fun resolved => placesOf resolved.toList :=
    optionalModel_leaves (hu h)
  cases kind with
  | json =>
    rw [payloadOf, map_eq_pure_bind]
    exact (hany (by decide)).bind_pure fun _ => subset_rfl
  | xml =>
    rw [payloadOf, map_eq_pure_bind]
    exact (hany (by decide)).bind_pure fun _ => subset_rfl
  | octetStream => exact Registry.leaves_pure _
  | multipart =>
    refine (hoptional (by decide)).bind fun model roots arena hh ht => ?_
    refine Resolving.ensures_get_bind (Resolving.ensures_pure
      ⟨hh, (telling around.registry).refl arena, ht.2.subset ?_⟩)
    refine Set.union_subset_union_right roots ?_
    rintro id ⟨resolved, hm, rfl⟩
    exact ⟨resolved, List.mem_append_left _ hm, rfl⟩
  | other =>
    rw [payloadOf, map_eq_pure_bind]
    exact (hoptional (by decide)).bind_pure fun _ => subset_rfl

theorem resolveBody_leaves {requested : Referable RequestBody} (hf : around.Frugal endpoint)
    (hs : endpoint.operation.requestBody = some requested) :
    around.registry.Leaves .last (around.resolveBody errand requested)
      fun bodies => placesOf (bodies.types.flatMap fun (_, body) => body.models) := by
  unfold resolveBody
  refine fun roots => Regime.Runs.lift_bind (fun body hb => ?_) fun _ _ _ _ => trivial
  have htypes : around.registry.Leaves .last (body.content.mapM fun content => do
      let payload ← around.resolvePayload content.1 content.2
        ⟨(Site.requestBody errand.name).context, errand.scope,
          contentPointer (below errand.pointer "requestBody") content.1⟩
      pure (content.1, (⟨payload, vendorExtensions content.2.extensions⟩ : Body)))
        fun types => {id | ∃ pair ∈ types, id ∈ placesOf pair.2.models} := by
    refine Registry.leaves_mapM _ fun content hm => ?_
    rw [resolvePayload_eq]
    exact (payloadOf_leaves (fun hread schema ht => hf.schemas schema (.body hs hb hm hread ht))
      (vendorExtensions content.2.extensions)).bind_pure fun _ => subset_rfl
  refine htypes.bind_pure (fun types => ?_) roots
  rintro id ⟨pair, hm, resolved, hr, rfl⟩
  exact ⟨resolved, List.mem_flatMap.mpr ⟨pair, hm, hr⟩, rfl⟩

theorem resolveReturn_leaves (hf : around.Frugal endpoint) (primary : Bool)
    {pair : String × Referable Response} (hm : pair ∈ endpoint.operation.responses.entries) :
    around.registry.Leaves .last (around.resolveReturn errand primary pair.1 pair.2)
      fun answer => placesOf answer.2.model.toList := by
  unfold resolveReturn
  simp only
  cases Status.parse pair.1 with
  | none => exact Registry.leaves_throw _
  | some status =>
    refine fun roots => Regime.Runs.lift_bind (fun response hr => ?_) fun _ _ _ _ => trivial
    cases hc : chosenContent response.content with
    | none =>
      simp only [pure_bind]
      exact Registry.leaves_pure _ roots
    | some chosen =>
      obtain ⟨type, media⟩ := chosen
      refine ((optionalModel_leaves fun schema ht => ?_).kept roots).bind fun model =>
        Regime.Runs.pure fun _ h => h.2
      exact hf.schemas schema (.answer hm hr hc ht)

theorem resolveReturns_leaves (hf : around.Frugal endpoint) :
    around.registry.Leaves .last (around.resolveReturns errand endpoint.operation.responses)
      fun returns => placesOf (returns.types.flatMap fun (_, type) => type.model.toList) := by
  unfold resolveReturns
  have hmodels : around.registry.Leaves .last
      (endpoint.operation.responses.entries.zipIdx.mapM fun item =>
        around.resolveReturn errand (item.2 == 0) item.1.1 item.1.2)
      fun types => {id | ∃ answer ∈ types, id ∈ placesOf answer.2.model.toList} :=
    Registry.leaves_mapM _ fun item hm =>
      resolveReturn_leaves hf (item.2 == 0) (List.fst_mem_of_mem_zipIdx hm)
  refine fun roots => (Regime.Runs.yields (hmodels roots) (resolveEach_answers _)).bind
    fun types => Regime.Runs.pure ?_
  rintro arena ⟨htidy, hanswers⟩
  have hnodup : (types.map Prod.fst).Nodup := by
    rw [keys_of_forall₂_some (hanswers.imp fun _ _ h => h.status)]
    exact hf.answers
  refine htidy.subset (Set.union_subset_union_right roots ?_)
  rintro id ⟨answer, hm, resolved, hr, rfl⟩
  rw [Entries.foldl_set_of_nodup hnodup]
  exact ⟨resolved, List.mem_flatMap.mpr ⟨answer, hm, hr⟩, rfl⟩

theorem resolveRoute_leaves (hf : around.Frugal endpoint) :
    around.registry.Leaves .last (around.resolveRoute endpoint) fun route => placesOf route.models := by
  unfold resolveRoute
  refine Registry.Leaves.bind (resolveInputs_leaves rfl hf) fun input roots => ?_
  have hreturns : ∀ (errand : Errand) (parts : Set ModelId) (route : Returns → Route),
      (∀ returns, parts ∪ placesOf (returns.types.flatMap fun (_, type) => type.model.toList) ⊆
        roots ∪ placesOf (route returns).models) →
      (telling around.registry).Runs
        (fun arena => arena.Within around.registry.lookup .last ∧ arena.Tidy parts)
        (do
          let returns ← around.resolveReturns errand endpoint.operation.responses
          pure (route returns))
        fun route after => after.Tidy (roots ∪ placesOf route.models) := fun errand parts route hparts =>
    (resolveReturns_leaves hf parts).bind fun returns => Regime.Runs.pure fun arena ht =>
      ht.subset (hparts returns)
  simp only
  cases hs : endpoint.operation.requestBody with
  | some requested =>
    refine ((resolveBody_leaves hf hs).kept _).bind fun body => hreturns _ _ _ fun returns => ?_
    rintro id (((hr | ⟨model, hm, rfl⟩) | ⟨model, hm, rfl⟩) | ⟨model, hm, rfl⟩)
    · exact .inl hr
    · exact .inr ⟨model, List.mem_append_left _ (List.mem_append_left _ hm), rfl⟩
    · exact .inr ⟨model, List.mem_append_left _ (List.mem_append_right _ hm), rfl⟩
    · exact .inr ⟨model, List.mem_append_right _ hm, rfl⟩
  | none =>
    refine hreturns _ _ _ fun returns => ?_
    rintro id ((hr | ⟨model, hm, rfl⟩) | ⟨model, hm, rfl⟩)
    · exact .inl hr
    · exact .inr ⟨model, List.mem_append_left _ (List.mem_append_left _ hm), rfl⟩
    · exact .inr ⟨model, List.mem_append_right _ hm, rfl⟩

/-- The operations that get a route when some are resolved in order. -/
def routed (around : Surroundings) : List Endpoint → Arena → List Endpoint
  | [], _ => []
  | endpoint :: rest, arena =>
    match Resolving.attempt (around.resolveRoute endpoint) arena with
    | (.ok _, after) => endpoint :: around.routed rest after
    | (.error _, after) => around.routed rest after

theorem routed_subset (around : Surroundings) (endpoints : List Endpoint) : ∀ arena : Arena,
    around.routed endpoints arena ⊆ endpoints := by
  induction endpoints with
  | nil => exact fun _ => List.Subset.refl []
  | cons endpoint rest ih =>
    intro arena
    rw [routed]
    split
    next => exact List.cons_subset_cons _ (ih _)
    next => exact List.subset_cons_of_subset _ (ih _)

end Surroundings

variable {registry : Registry} {around : Surroundings} {arena after : Arena} {report : Report}

theorem Arena.Rested.not_unfinished (h : arena.Rested registry) (name : String) :
    ¬ arena.Unfinished registry.lookup name :=
  Arena.not_unfinished_of_filled h.sound h.filled

theorem Registry.Sweeps.tidy {names : List String} {roots : Set ModelId}
    (h : registry.Sweeps names arena report after)
    (hq : ∀ entry ∈ registry.entriesOf names arena, registry.lookup.Undisputed
      {name | name ∈ entry.unfinished} (.component entry.name))
    (ht : arena.Told registry.lookup) (hu : arena.Tidy roots) : after.Tidy roots := by
  induction h with
  | done => exact hu
  | noted hm _ ih =>
    rw [entriesOf, hm, if_pos rfl] at hq
    exact ih hq ht hu
  | kept hrested hm he _ _ _ ih =>
    obtain ⟨allowed, hentries, hpermitted⟩ := entriesOf_kept hm (Resolving.attempt_eq_ok.mp he)
    rw [hentries] at hq
    have hallowed := fun entry hentry => hq entry (List.mem_append_left _ hentry)
    obtain ⟨hafter, _, htidy⟩ := (Resolving.ensures_iff.mp (component_tidies hallowed roots _
      ⟨hrested.sound, ht⟩ ⟨hrested.not_unfinished, hu⟩)).1 _ _ hpermitted
    exact ih (fun entry hentry => hq entry (List.mem_append_right _ hentry)) hafter.2 htidy
  | failed _ hm he _ ih =>
    rw [entriesOf_failed hm he] at hq
    exact ih hq ⟨ht.stands, ht.settled⟩ hu

theorem Arena.Complete.met (h : arena.Complete registry) : arena.Met registry.lookup ∅ := by
  rintro name schema ⟨body, hb, _⟩ hm hf
  rcases h name (Entries.has_iff.mpr ⟨body, hb⟩) with hnoted | hfailed
  · obtain ⟨id, hid⟩ := Entries.has_iff.mp hnoted
    cases hid.symm.trans hm
  · exact absurd hfailed hf

theorem Surroundings.Sweeps.tidy {endpoints : List Endpoint} {routes : List Route}
    (h : around.Sweeps endpoints arena routes report after)
    (hf : ∀ endpoint ∈ around.routed endpoints arena, around.Frugal endpoint)
    (hm : arena.Met around.registry.lookup ∅)
    (ht : arena.Told around.registry.lookup) : ∀ roots, arena.Tidy roots →
      after.Tidy (roots ∪ placesOf (routes.flatMap Route.models)) := by
  induction h with
  | done => exact fun roots hu => hu.subset Set.subset_union_left
  | @kept endpoint rest arena middle last route routes report hrested he hg _ _ ih =>
    intro roots hu
    rw [routed, he] at hf
    obtain ⟨hfirst, hrest⟩ := List.forall_mem_cons.mp hf
    have hok := Resolving.attempt_eq_ok.mp he
    have hwithin : arena.Within around.registry.lookup .last :=
      ⟨fun name hn => absurd hn (hrested.not_unfinished name), hm⟩
    obtain ⟨hafter, _, htidy⟩ := (Resolving.ensures_iff.mp (resolveRoute_leaves hfirst roots _
      ⟨hrested.sound, ht⟩ ⟨hwithin, hu⟩)).1 _ _ hok
    refine (ih hrest (hm.grows hg) hafter.2 _ htidy).subset ?_
    rintro id ((hr | ⟨model, hm, rfl⟩) | ⟨model, hm, rfl⟩)
    · exact .inl hr
    · exact .inr ⟨model, List.mem_append_left _ hm, rfl⟩
    · exact .inr ⟨model, List.mem_append_right _ hm, rfl⟩
  | failed he _ ih =>
    rw [routed, he] at hf
    exact ih hf hm ht

namespace Models

/-- A model is made of another one, in place or by reference. -/
def Uses (models : Models) (outer inner : ModelId) : Prop :=
  inner ∈ (models.parts outer).map Resolved.id

/-- A model is reached from a component or from one of some models. -/
def Reaches (models : Models) (starts : List Resolved) (id : ModelId) : Prop :=
  ∃ start ∈ Entries.values models.components ++ starts.map Resolved.id,
    ReflTransGen models.Uses start id

variable {models : Models} {starts : List Resolved} {id : ModelId}

/-- Models that lead to no others among some leave those others unreached. -/
theorem mem_of_reaches {kept : List ModelId} (h : models.Reaches starts id)
    (hstarts : (Entries.values models.components ++ starts.map Resolved.id).all kept.contains = true)
    (hclosed : (kept.all fun outer => (models.parts outer).all fun part =>
      kept.contains part.id) = true) : id ∈ kept := by
  simp only [List.all_eq_true, List.contains_iff_mem] at hstarts hclosed
  obtain ⟨start, hm, hu⟩ := h
  induction hu with
  | refl => exact hstarts start hm
  | tail _ hstep ih =>
    obtain ⟨part, hpart, rfl⟩ := List.mem_map.mp hstep
    exact hclosed _ ih part hpart

end Models

/-- What is reached when an arena is finished is what was reached in it. -/
theorem Arena.Rested.reaches_finish (h : arena.Rested registry) {starts : List Resolved}
    {id : ModelId} (hr : arena.Reaches (placesOf starts) id) : arena.finish.Reaches starts id := by
  obtain ⟨start, hstart, hu⟩ := hr
  refine ⟨start, ?_, ReflTransGen.mono (fun outer inner hu => ?_) _ _ hu⟩
  · rcases hstart with ⟨resolved, hm, rfl⟩ | ⟨name, hn⟩
    · exact List.mem_append_right _ (List.mem_map_of_mem hm)
    · exact List.mem_append_left _ (List.mem_map_of_mem (Entries.mem_of_get? hn))
  · obtain ⟨model, hm, child, hc, rfl⟩ := hu
    refine List.mem_map_of_mem ?_
    rw [← Arena.get?_finish h.filled] at hm
    simpa [Models.parts, hm] using hc

/-- A document drops nothing that it resolves and keeps. A component that is entered disputes no
definition while those components are unfinished that are so then, and an operation with a route
drops nothing. -/
structure Document.Frugal (settings : Settings) (document : Document) : Prop where
  components : ∀ entry ∈ (document.surroundings settings).registry.entries,
    (document.surroundings settings).registry.lookup.Undisputed {name | name ∈ entry.unfinished}
      (.component entry.name)
  operations : ∀ endpoint ∈ (document.surroundings settings).routed document.endpoints
    (document.componentArena settings), (document.surroundings settings).Frugal endpoint

namespace Atlas

variable {settings : Settings} {document : Document}

/-- Where nothing is dropped that was resolved, every model of a document is reached from a component
or from what an operation takes or answers with, and so is every model that asks for a name, whether
or not the names can be given. -/
theorem every_model_used (h : document.Frugal settings) :
    (∀ id, id < (document.resolve settings).2.1.nodes.length →
      (document.resolve settings).2.1.Reaches
        ((document.resolve settings).1.flatMap Route.models) id) ∧
    (∀ candidate ∈ Candidate.qualified settings.naming (document.resolve settings).2.1,
      (document.resolve settings).2.1.Reaches
        ((document.resolve settings).1.flatMap Route.models) candidate.id) ∧
    ∀ atlas, Atlas.of settings document = .ok atlas →
      (∀ id, id < atlas.models.nodes.length →
        atlas.models.Reaches (atlas.root.all.flatMap Route.models) id) ∧
      ∀ id ∈ atlas.names.map Prod.fst,
        atlas.models.Reaches (atlas.root.all.flatMap Route.models) id := by
  have hrested := Document.finalArena_rested settings document
  have hsweeps := Document.sweeps_components settings document
  have htold := hsweeps.told (Arena.Told.empty _)
  have htidy : (document.finalArena settings).Tidy
      (∅ ∪ placesOf ((document.routes settings).flatMap Route.models)) :=
    (Document.sweeps_routes settings document).tidy h.operations
      (Document.componentArena_complete settings document).met htold ∅
      (hsweeps.tidy h.components (Arena.Told.empty _) (Arena.tidy_empty ∅))
  rw [Set.empty_union] at htidy
  have hall : ∀ id, id < (document.finalArena settings).finish.nodes.length →
      (document.finalArena settings).finish.Reaches
        ((document.routes settings).flatMap Route.models) id := by
    intro id hi
    rw [Arena.length_finish hrested.filled] at hi
    exact hrested.reaches_finish (htidy id hi)
  refine ⟨hall, fun candidate hm => hall _ ?_, fun atlas hatlas => ?_⟩
  · apply Models.lt_of_mem_nameable
    rw [← Models.ids_qualified settings.naming]
    exact List.mem_map_of_mem hm
  obtain ⟨hmodels, hroutes, hnames, _⟩ := of_eq_ok hatlas
  have hused : ∀ id, id < atlas.models.nodes.length →
      atlas.models.Reaches (atlas.root.all.flatMap Route.models) id := by
    intro id hi
    rw [hmodels] at hi ⊢
    obtain ⟨start, hstart, hu⟩ := hall id hi
    refine ⟨start, ?_, hu⟩
    rcases List.mem_append.mp hstart with hcomponent | hroute
    · exact List.mem_append_left _ hcomponent
    · exact List.mem_append_right _ (((hroutes.flatMap_right _).map _).mem_iff.mpr hroute)
  refine ⟨hused, fun id hm => hused id (Models.lt_of_mem_nameable ?_)⟩
  rwa [← Models.keys_assign hnames]

/-- A component that has another one as its base and defines a property of it once more. The base
refers back. -/
def kennelComponents : List (String × SchemaNode) := [
  ("Dog", .inline { allOf := [.ref "#/components/schemas/Pet",
    .inline { properties := [("kind", .inline (Registry.having "bark" []))] }] }),
  ("Pet", .inline { properties := [("kind", .inline (Registry.having "legs" [])),
    ("friend", .ref "#/components/schemas/Dog")] })]

/-- The components in this order, and an operation that answers with a list of the first. -/
def stableDocument : Document where
  openapi := "3.0.3"
  info := { title := "Stable", version := "1" }
  paths := [("/dogs", { get := some { responses := { entries := [("200", .inline { content :=
    [("application/json", { schema := some (.inline
      { items := some (.ref "#/components/schemas/Dog") }) })] })] } } })]
  components := some { schemas := kennelComponents }

/-- What its schemas are looked up in. -/
def stableLookup : Lookup := (stableDocument.surroundings {}).registry.lookup

/-- The base is entered by way of the component that extends it, and so is finished when it is merged. -/
theorem stable_entries : (stableDocument.surroundings {}).registry.entries =
    [⟨"Dog", ["Dog"]⟩, ⟨"Pet", ["Dog", "Pet"]⟩] := by
  decide +kernel

/-- Listed the other way round, the base is unfinished when it is merged. -/
example : Registry.entries ⟨kennelComponents.reverse, []⟩ =
    [⟨"Pet", ["Pet"]⟩, ⟨"Dog", ["Pet", "Dog"]⟩] := by
  decide +kernel

theorem undisputed_having (unfinished : Set String) (name : String) :
    stableLookup.Undisputed unfinished (.resolve (.inline (Registry.having name []))) := by
  refine Lookup.undisputed_object rfl rfl (Lookup.undisputed_flat rfl (List.nodup_singleton _)
    fun pair hm => ?_)
  cases List.mem_singleton.mp hm
  refine Lookup.undisputed_resolve fun schema bare => ?_
  cases (SchemaNode.bare_inline rfl).symm.trans bare
  exact Lookup.undisputed_build fun inner hp => hp.of_build.elim

theorem undisputed_kind (unfinished : Set String) (name : String) : stableLookup.Undisputed unfinished
    (.merge { properties := [("kind", .inline (Registry.having name []))] }) := by
  refine Lookup.undisputed_flat rfl (List.nodup_singleton _) fun pair hm => ?_
  cases List.mem_singleton.mp hm
  exact undisputed_having unfinished name

/-- The base has a text of its own, and the dog alone is unfinished when it is merged. -/
theorem stable_not_pending : ¬ stableLookup.Pending {name | name ∈ ["Dog"]} "Pet" := by
  have howns : ∃ schema, stableLookup.Own "Pet" schema := ⟨_, _, rfl, SchemaNode.bare_inline rfl⟩
  obtain ⟨text, howns⟩ := howns
  rintro ⟨owner, ho, schema, hstands⟩
  cases hstands with
  | own => exact absurd ho (by decide)
  | link step => exact howns.not_alias step

/-- What the finished base defines, the branch after it may define once more. -/
theorem undisputed_dog : stableLookup.Undisputed {name | name ∈ ["Dog"]}
    (.merge { allOf := [.ref "#/components/schemas/Pet",
      .inline { properties := [("kind", .inline (Registry.having "bark" []))] }] }) := by
  refine Lookup.undisputed_iff.mpr ⟨fun schema he => ?_, fun inner hp => ?_⟩
  · cases he
    refine ⟨by simp [Entries.keys], ?_, by simp [Entries.keys]⟩
    rw [List.pairwise_pair]
    exact fun name hbrings => absurd hbrings (Lookup.finished_brings_nothing rfl stable_not_pending)
  · cases hp with
    | member listed => simp at listed
    | branch listed =>
      rcases List.mem_cons.mp listed with rfl | hkind
      · exact Lookup.undisputed_finished rfl stable_not_pending
      · cases List.mem_singleton.mp hkind
        exact Lookup.undisputed_nested (undisputed_kind _ "bark")

theorem stable_frugal : stableDocument.Frugal {} := by
  refine ⟨fun entry he => ?_, fun endpoint hm => ?_⟩
  · rw [stable_entries] at he
    refine Lookup.undisputed_component fun node found => ?_
    rcases List.mem_cons.mp he with rfl | hpet
    · cases found
      refine Lookup.undisputed_resolve fun schema bare => Lookup.undisputed_build fun inner hp => ?_
      cases (SchemaNode.bare_inline rfl).symm.trans bare
      exact hp.of_build ▸ undisputed_dog
    · cases List.mem_singleton.mp hpet
      cases found
      refine Lookup.undisputed_object rfl rfl (Lookup.undisputed_flat rfl (by decide)
        fun pair hm => ?_)
      rcases List.mem_cons.mp hm with rfl | hfriend
      · exact undisputed_having _ "legs"
      · cases List.mem_singleton.mp hfriend
        exact Lookup.undisputed_ref
  have hsole : stableDocument.endpoints = [⟨"/dogs", _, .get, _⟩] := rfl
  cases List.mem_singleton.mp (hsole ▸ Surroundings.routed_subset _ _ _ hm)
  refine ⟨fun node hasks => Lookup.undisputed_resolve fun schema bare =>
    Lookup.undisputed_build fun inner hp => ?_, by decide⟩
  cases hasks with
  | input lists mem _ =>
    cases lists
    cases mem
  | body sent => cases sent
  | answer mem leads chosen typed =>
    cases List.mem_singleton.mp mem
    cases leads
    cases chosen
    cases typed
    cases (SchemaNode.bare_inline rfl).symm.trans bare
    obtain ⟨items, hitems, rfl⟩ := hp.of_build
    cases hitems
    exact Lookup.undisputed_ref

theorem every_model_used_stable :
    ∃ atlas, Atlas.of {} stableDocument = .ok atlas ∧ atlas.models.nodes.length = 7 ∧
      ∀ id, id < 7 → atlas.models.Reaches (atlas.root.all.flatMap Route.models) id := by
  have hok : (Atlas.of {} stableDocument).toOption.any (fun atlas =>
      atlas.models.nodes.length == 7) = true := by decide +kernel
  obtain ⟨atlas, hatlas, hlength⟩ := exists_of_any hok
  have hseven : atlas.models.nodes.length = 7 := eq_of_beq hlength
  refine ⟨atlas, hatlas, hseven, fun id hi => ?_⟩
  exact ((every_model_used stable_frugal).2.2 atlas hatlas).1 id (hseven.symm ▸ hi)

/-- A component of two parts that define one property, each in its own words. -/
def disputedDocument : Document where
  openapi := "3.0.3"
  info := { title := "Kennel", version := "1" }
  components := some { schemas := [("Dog", .inline { allOf := [
    .inline { properties := [("kind", .inline { properties := [("a", .inline {})] })] },
    .inline { properties := [("kind", .inline { properties := [("b", .inline {})] })] }] })] }

/-- The definition that is replaced is used nowhere. It takes a name all the same, so that the other
one gets a number, or so that there are no names at all. -/
theorem not_every_model_used :
    (∃ atlas, Atlas.of {} disputedDocument = .ok atlas ∧ 1 < atlas.models.nodes.length ∧
      ¬ atlas.models.Reaches (atlas.root.all.flatMap Route.models) 1 ∧
        atlas.names.identifier? 1 = some "DogKind" ∧
          atlas.names.identifier? 3 = some "DogKind2") ∧
      ∃ collision, Atlas.of { naming := { strict := true } } disputedDocument = .error collision ∧
        collision.identifier = "DogKind" := by
  constructor
  · have hok : (Atlas.of {} disputedDocument).toOption.any (fun atlas =>
        (Entries.values atlas.models.components ++
          (atlas.root.all.flatMap Route.models).map Resolved.id).all [0, 3, 4].contains &&
        ([0, 3, 4].all fun outer => (atlas.models.parts outer).all fun part =>
          [0, 3, 4].contains part.id) &&
        decide (1 < atlas.models.nodes.length) &&
        atlas.names.identifier? 1 == some "DogKind" &&
        atlas.names.identifier? 3 == some "DogKind2") = true := by decide +kernel
    obtain ⟨atlas, hatlas, hp⟩ := exists_of_any hok
    simp only [Bool.and_eq_true, decide_eq_true_eq, beq_iff_eq] at hp
    obtain ⟨⟨⟨⟨hstarts, hclosed⟩, hlength⟩, hfirst⟩, hsecond⟩ := hp
    refine ⟨atlas, hatlas, hlength, fun hreaches => ?_, hfirst, hsecond⟩
    have hmem := Models.mem_of_reaches hreaches hstarts hclosed
    simp at hmem
  · have herror : (match Atlas.of { naming := { strict := true } } disputedDocument with
        | .error collision => collision.identifier == "DogKind"
        | .ok _ => false) = true := by decide +kernel
    cases h : Atlas.of { naming := { strict := true } } disputedDocument with
    | ok atlas => simp [h] at herror
    | error collision =>
      rw [h] at herror
      exact ⟨collision, rfl, eq_of_beq herror⟩

end Atlas

end ApiAtlas
