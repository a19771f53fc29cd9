import ApiAtlas.Proofs.EveryModelUsed
import ApiAtlas.Proofs.ModelPurposes
import ApiAtlas.Proofs.OperationIndependence

namespace ApiAtlas

open Relation Resolving

/-- The name of the operation. -/
def Endpoint.name (naming : NamingSettings) (endpoint : Endpoint) : String :=
  operationName naming endpoint.method endpoint.path endpoint.operation

/-- What a model was made for. -/
inductive Maker
  | components
  | operation (endpoint : Endpoint)

namespace Maker

/-- The literal path segments of the operation; components have none. -/
def scope : Maker → List String
  | components => []
  | operation endpoint => literalSegments endpoint.path

/-- The names that contexts may start with: those of all components, or that of the operation. -/
def Owns (naming : NamingSettings) (components : Entries ModelId) : Maker → String → Prop
  | .components, root => Entries.has components root = true
  | .operation endpoint, root => root = endpoint.name naming

end Maker

/-- For each place that operations add to an arena the operation that added it. -/
def Surroundings.makers (around : Surroundings) : List Endpoint → Arena → List Maker
  | [], _ => []
  | endpoint :: rest, arena =>
    let after := (attempt (around.resolveRoute endpoint) arena).2
    List.replicate (after.slots.length - arena.slots.length) (.operation endpoint) ++
      around.makers rest after

/-- For each model of a document what it was made for. -/
def Document.makers (settings : Settings) (document : Document) : List Maker :=
  let arena := document.componentArena settings
  List.replicate arena.slots.length .components ++
    (document.surroundings settings).makers document.endpoints arena

variable {registry : Registry} {around : Surroundings} {arena after last : Arena}
  {endpoint : Endpoint} {endpoints : List Endpoint} {makers : List Maker} {route : Route}
  {routes : List Route} {report : Report} {settings : Settings} {document : Document}

/-- What models are made for while components are resolved. -/
def componentPurpose (registry : Registry) : Purpose registry where
  start := 0
  scope := []
  roots arena root := Entries.has arena.memo root = true
  ready _ := True
  roots_kept hr h := hr _ h
  ready_kept _ _ h := h
  entered _ _ _ _ := ⟨rfl, fun _ h => h⟩

theorem Arena.Complete.recalls {before after : Arena} (h : before.Complete registry)
    (hr : before.Recalls after) (hf : after.failed = before.failed) : after.Complete registry :=
  fun name hn => (h name hn).imp (hr name) fun hm => hf ▸ hm

/-- What models are made for while an operation is resolved. No component is entered then, as all
that can be are noted. -/
def operationPurpose (around : Surroundings) (endpoint : Endpoint) (start : Nat) :
    Purpose around.registry where
  start := start
  scope := literalSegments endpoint.path
  roots _ root := root = endpoint.name around.naming
  ready := Arena.Complete around.registry
  roots_kept _ h := h
  ready_kept hr hf h := h.recalls hr hf
  entered := by
    intro arena name hcomplete hname hm hf
    rcases hcomplete name hname with hhas | hfailed
    · rw [Entries.has_eq_false_iff.mpr hm] at hhas
      cases hhas
    · exact absurd hfailed hf

/-- Work that comes to a result leaves only places that serve the purpose. -/
theorem Purpose.serves_of_attempt {α : Type} {purpose : Purpose registry} {work : Resolving α}
    {root : Option String} {a : α} (hw : purpose.Keeps root work) (hready : purpose.ready arena)
    (hserves : arena.Serves purpose) (hroot : purpose.Rooted root arena)
    (he : attempt work arena = (.ok a, after)) : after.Serves purpose :=
  ((ensures_iff.mp (hw arena ⟨hready, hserves⟩ hroot)).1 a after (attempt_eq_ok.mp he)).1.2

/-- The arena has the scopes that its makers have, and their names stand above its contexts. -/
structure Arena.MadeBy (naming : NamingSettings) (arena : Arena) (makers : List Maker) : Prop where
  length : makers.length = arena.slots.length
  scopes : arena.scopes = makers.map Maker.scope
  owned : ∀ (id : ModelId) model context maker, arena.model? id = some model →
    model.context? = some context → makers[id]? = some maker →
    maker.Owns naming arena.memo context.root

/-- All places of the components serve their purpose. -/
theorem Registry.Sweeps.serves {names : List String} (h : registry.Sweeps names arena report last)
    (hs : arena.Serves (componentPurpose registry)) : last.Serves (componentPurpose registry) := by
  induction h with
  | done => exact hs
  | noted _ _ ih => exact ih hs
  | kept _ _ he _ _ _ ih =>
    have hafter := Purpose.serves_of_attempt Purpose.component_keeps trivial hs
      (Purpose.rooted_none _) he
    exact ih hafter
  | failed _ _ _ _ ih => exact ih ⟨hs.scopes, hs.contexts⟩

theorem Document.componentArena_madeBy (settings : Settings) (document : Document) :
    (document.componentArena settings).MadeBy settings.naming
      (List.replicate (document.componentArena settings).slots.length .components) := by
  have hempty : ({} : Arena).Serves (componentPurpose (document.surroundings settings).registry) :=
    Arena.Serves.at_end rfl rfl
  have hserves := (sweeps_components settings document).serves hempty
  have haligned := (componentArena_rested settings document).sound.aligned
  refine ⟨List.length_replicate, ?_, fun id model context maker hm hc hmaker => ?_⟩
  · rw [List.map_replicate, ← haligned]
    refine List.eq_replicate_iff.mpr ⟨rfl, fun scope hs => ?_⟩
    obtain ⟨id, hi⟩ := List.mem_iff_getElem?.mp hs
    exact hserves.scopes id scope (Nat.zero_le id) hi
  · rw [List.eq_of_mem_replicate (List.mem_of_getElem? hmaker)]
    exact hserves.contexts id model context (Nat.zero_le id) hm hc

theorem Maker.Owns.mono {naming : NamingSettings} {components longer : Entries ModelId}
    {maker : Maker} {root : String} (h : maker.Owns naming components root)
    (hl : ∀ name, Entries.has components name = true → Entries.has longer name = true) :
    maker.Owns naming longer root := by
  cases maker with
  | components => exact hl root h
  | operation endpoint => exact h

/-- An operation that resolves is entered in the ledger for each place that it added. -/
theorem Arena.MadeBy.attempt (h : arena.MadeBy around.naming makers)
    (hrested : arena.Rested around.registry) (hcomplete : arena.Complete around.registry)
    (he : attempt (around.resolveRoute endpoint) arena = (.ok route, after))
    (hg : arena.Grows after) (haligned : after.scopes.length = after.slots.length) :
    after.MadeBy around.naming (makers ++
      List.replicate (after.slots.length - arena.slots.length) (.operation endpoint)) := by
  have hnone : arena.Serves (operationPurpose around endpoint arena.slots.length) :=
    Arena.Serves.at_end hrested.sound.aligned rfl
  have hserves := Purpose.serves_of_attempt (Purpose.resolveRoute_keeps rfl) hcomplete hnone
    (fun _ hn => (Option.some.inj hn).symm) he
  have hle := hg.slots.length_le
  refine ⟨?_, ?_, fun id model context maker hm hc hmaker => ?_⟩
  · rw [List.length_append, List.length_replicate, h.length]
    omega
  · rw [hserves.scopes_eq hg rfl hrested.sound.aligned haligned, List.map_append,
      List.map_replicate, h.scopes]
    rfl
  · by_cases hi : id < arena.slots.length
    · rw [List.getElem?_append_left (h.length ▸ hi)] at hmaker
      have hold : arena.model? id = some model := by
        unfold model? at hm ⊢
        rw [← hg.slots_getElem? hi, hm]
      exact (h.owned id model context maker hold hc hmaker).mono hg.recalls
    · have hi := Nat.not_lt.mp hi
      rw [List.getElem?_append_right (h.length ▸ hi)] at hmaker
      rw [List.eq_of_mem_replicate (List.mem_of_getElem? hmaker)]
      exact hserves.contexts id model context hi hm hc

namespace Surroundings

theorem Sweeps.start (h : around.Sweeps endpoints arena routes report last) :
    arena.Rested around.registry := by
  induction h with
  | done hrested => exact hrested
  | kept hrested _ _ _ _ _ => exact hrested
  | failed _ _ ih => exact ih

section
variable {rest : List Endpoint} {error : ResolveError}

theorem makers_of_ok (he : attempt (around.resolveRoute endpoint) arena = (.ok route, after)) :
    around.makers (endpoint :: rest) arena =
      List.replicate (after.slots.length - arena.slots.length) (.operation endpoint) ++
        around.makers rest after := by
  rw [makers, he]

theorem makers_of_error
    (he : attempt (around.resolveRoute endpoint) arena = (.error error, arena)) :
    around.makers (endpoint :: rest) arena = around.makers rest arena := by
  rw [makers, he, Nat.sub_self, List.replicate_zero, List.nil_append]

end

/-- The ledger is kept along all operations. -/
theorem Sweeps.madeBy (h : around.Sweeps endpoints arena routes report last) :
    ∀ {makers : List Maker}, arena.Complete around.registry →
      arena.MadeBy around.naming makers →
      last.MadeBy around.naming (makers ++ around.makers endpoints arena) := by
  induction h with
  | done =>
    intro makers _ hm
    rwa [Surroundings.makers, List.append_nil]
  | kept hrested he hg _ hrest ih =>
    intro makers hcomplete hm
    have hafter := hm.attempt hrested hcomplete he hg hrest.start.sound.aligned
    rw [makers_of_ok he, ← List.append_assoc]
    exact ih (hcomplete.recalls hg.recalls hg.failed) hafter
  | failed he _ ih =>
    intro makers hcomplete hm
    rw [makers_of_error he]
    exact ih hcomplete hm

theorem resolveRoute_operationId
    (he : attempt (around.resolveRoute endpoint) arena = (.ok route, after)) :
    route.operationId = endpoint.name around.naming := by
  have hroute : (around.resolveRoute endpoint).Yields
      fun route => route.operationId = endpoint.name around.naming := by
    unfold resolveRoute
    refine Yields.last fun input => ?_
    cases endpoint.operation.requestBody <;>
    exact Yields.last fun body => Yields.last fun returns => Yields.pure rfl
  exact hroute arena route after (attempt_eq_ok.mp he)

/-- Operations in the ledger have their routes. -/
theorem Sweeps.route_of_maker (h : around.Sweeps endpoints arena routes report last)
    (hm : .operation endpoint ∈ around.makers endpoints arena) :
    endpoint ∈ endpoints ∧ ∃ route ∈ routes, route.method = endpoint.method ∧
      route.path = endpoint.path ∧ route.operationId = endpoint.name around.naming := by
  induction h with
  | done => cases hm
  | @kept first _ _ _ _ route _ _ _ he _ _ _ ih =>
    rw [makers_of_ok he] at hm
    rcases List.mem_append.mp hm with hfirst | hrest
    · cases Maker.operation.inj (List.eq_of_mem_replicate hfirst)
      obtain ⟨hmethod, hpath⟩ := Source.route.inj (resolveRoute_source he)
      exact ⟨List.mem_cons_self, route, List.mem_cons_self, hmethod, hpath,
        resolveRoute_operationId he⟩
    · obtain ⟨hin, other, ho, hnames⟩ := ih hrest
      exact ⟨List.mem_cons_of_mem _ hin, other, List.mem_cons_of_mem _ ho, hnames⟩
  | failed he _ ih =>
    rw [makers_of_error he] at hm
    obtain ⟨hin, hroute⟩ := ih hm
    exact ⟨List.mem_cons_of_mem _ hin, hroute⟩

end Surroundings

namespace Document

theorem finalArena_madeBy (settings : Settings) (document : Document) :
    (document.finalArena settings).MadeBy settings.naming (document.makers settings) :=
  (sweeps_routes settings document).madeBy (componentArena_complete settings document)
    (componentArena_madeBy settings document)

/-- What was there before the first operation was made for components. -/
theorem makers_of_lt {id : Nat} (h : id < (document.componentArena settings).slots.length) :
    (document.makers settings)[id]? = some .components := by
  unfold makers
  rw [List.getElem?_append_left (by simpa using h), List.getElem?_replicate_of_lt h]

/-- A component uses only what was made for components. -/
theorem lt_of_uses {outer inner : ModelId}
    (ho : outer < (document.componentArena settings).slots.length)
    (h : ReflTransGen (document.finalArena settings).finish.Uses outer inner) :
    inner < (document.componentArena settings).slots.length := by
  have hrested := componentArena_rested settings document
  have hgrows := (sweeps_routes settings document).grows
  have hfilled := (finalArena_rested settings document).filled
  induction h with
  | refl => exact ho
  | @tail middle _ _ hstep ih =>
    obtain ⟨model, hmodel⟩ := Option.isSome_iff_exists.mp (hrested.filled middle (Nat.zero_le _) ih)
    obtain ⟨part, hpart, rfl⟩ := List.mem_map.mp hstep
    rw [Models.parts, Arena.get?_finish hfilled, hgrows.model? hmodel] at hpart
    exact hrested.sound.holds_lt (hrested.sound.linked middle model hmodel part hpart)

/-- What is reached through a reference was made for components. -/
theorem maker_of_ref {name : String} {id inner : ModelId}
    (hr : .ref name id ∈ (document.routes settings).flatMap Route.models ++
      (document.finalArena settings).finish.nodes.flatMap Model.children)
    (hu : ReflTransGen (document.finalArena settings).finish.Uses id inner) :
    (document.makers settings)[inner]? = some .components := by
  have hrested := finalArena_rested settings document
  have hheld : (document.finalArena settings).Holds (.ref name id) := by
    rcases List.mem_append.mp hr with hroute | hnode
    · obtain ⟨route, hm, hc⟩ := List.mem_flatMap.mp hroute
      exact routes_held hm _ hc
    · obtain ⟨model, hm, hc⟩ := List.mem_flatMap.mp hnode
      obtain ⟨place, hp⟩ := List.mem_iff_getElem?.mp hm
      have hmodel := (Arena.get?_finish hrested.filled place).symm.trans hp
      exact hrested.sound.linked place model hmodel _ hc
  have hnoted : Entries.get? (document.componentArena settings).memo name = some id :=
    (finalArena_keeps settings document).1 ▸ hheld
  have hlt := (componentArena_rested settings document).sound.lt_of_get? hnoted
  exact makers_of_lt (lt_of_uses hlt hu)

end Document

theorem Models.scope_eq_of_maker {models : Models} {id : ModelId} {maker : Maker}
    (hs : models.scopes = makers.map Maker.scope) (hm : makers[id]? = some maker) :
    models.scope id = maker.scope := by
  rw [scope, hs, List.getElem?_map, hm]
  rfl

theorem Arena.MadeBy.owns_of_nameable {naming : NamingSettings} {id : ModelId} {context : Context}
    {maker : Maker} (h : arena.MadeBy naming makers) (hf : ({} : Arena).Filled arena)
    (hn : (id, context) ∈ arena.finish.nameable) (hmaker : makers[id]? = some maker) :
    maker.Owns naming arena.memo context.root := by
  obtain ⟨⟨model, place⟩, hplace, hcontext⟩ := List.mem_filterMap.mp hn
  obtain ⟨other, hc, he⟩ := Option.map_eq_some_iff.mp hcontext
  cases he
  have hmodel := (get?_finish hf id).symm.trans (List.mem_zipIdx_iff_getElem?.mp hplace)
  exact h.owned id model context maker hmodel hc hmaker

/-- Only a model of an operation gets a segment in front of its name, and the segment is one of that
operation's path. -/
theorem Candidate.qualify_of_makers {naming : NamingSettings} {models : Models}
    (hs : models.scopes = makers.map Maker.scope) (candidates : List Candidate)
    (candidate : Candidate) :
    qualify naming models candidates candidate = candidate ∨
      ∃ endpoint ancestor, makers[candidate.id]? = some (.operation endpoint) ∧
        (literalSegments endpoint.path).getLast? = some ancestor ∧
        qualify naming models candidates candidate = { candidate with
          name := renderSegments naming (ancestor :: candidate.context.segments) } := by
  have hscope : models.scope candidate.id = (makers[candidate.id]?.map Maker.scope).getD [] := by
    rw [Models.scope, hs, List.getElem?_map]
  unfold qualify
  rw [hscope]
  split
  next =>
    cases makers[candidate.id]? with
    | none => exact .inl rfl
    | some maker =>
      cases maker with
      | components => exact .inl rfl
      | operation endpoint =>
        simp only [Option.map_some, Option.getD_some, Maker.scope]
        cases ha : (literalSegments endpoint.path).getLast? with
        | none => exact .inl rfl
        | some ancestor => exact .inr ⟨endpoint, ancestor, rfl, ha, rfl⟩
  next => exact .inl rfl

/-- Every model remembers what it was made for. The ledger has an entry for every model. What was
made for components has no scope, and is named below a component of the index; what was made for an
operation has the literal segments of its path for a scope, and is named below the operation, which
has a route. All that is reached through a reference was made for components. So where a name gets a
segment in front, it is one of the route that the model was made for. -/
theorem Document.models_remember_makers (settings : Settings) (document : Document) :
    let makers := document.makers settings
    let (routes, models, _) := document.resolve settings
    let candidates := Candidate.ofModels settings.naming models
    makers.length = models.nodes.length ∧ models.scopes = makers.map Maker.scope ∧
      (∀ id context maker, (id, context) ∈ models.nameable → makers[id]? = some maker →
        maker.Owns settings.naming models.components context.root) ∧
      (∀ endpoint, .operation endpoint ∈ makers → endpoint ∈ document.endpoints ∧
        ∃ route ∈ routes, route.method = endpoint.method ∧ route.path = endpoint.path ∧
          route.operationId = endpoint.name settings.naming) ∧
      (∀ name id inner,
        .ref name id ∈ routes.flatMap Route.models ++ models.nodes.flatMap Model.children →
        ReflTransGen models.Uses id inner →
          makers[inner]? = some .components ∧ models.scope inner = []) ∧
      ∀ candidate ∈ candidates,
        Candidate.qualify settings.naming models candidates candidate = candidate ∨
        ∃ endpoint ancestor, makers[candidate.id]? = some (.operation endpoint) ∧
          (literalSegments endpoint.path).getLast? = some ancestor ∧
          Candidate.qualify settings.naming models candidates candidate = { candidate with
            name := renderSegments settings.naming (ancestor :: candidate.context.segments) } := by
  intro makers
  have hmade := finalArena_madeBy settings document
  have hfilled := (finalArena_rested settings document).filled
  have hlength : makers.length = (document.finalArena settings).finish.nodes.length :=
    hmade.length.trans (Arena.length_finish hfilled).symm
  refine ⟨hlength, hmade.scopes, fun id context maker => hmade.owns_of_nameable hfilled,
    fun endpoint hm => ?_, fun name id inner hr hu => ?_,
    fun candidate _ => Candidate.qualify_of_makers hmade.scopes _ candidate⟩
  · rcases List.mem_append.mp hm with hcomponents | hoperations
    · cases List.eq_of_mem_replicate hcomponents
    · exact (sweeps_routes settings document).route_of_maker hoperations
  · have hmaker : makers[inner]? = some .components := maker_of_ref hr hu
    exact ⟨hmaker, Models.scope_eq_of_maker hmade.scopes hmaker⟩

/-- The list that an operation answers with is made for it, and the objects in the list are not. -/
example : (Atlas.stableDocument.makers {}).map Maker.scope =
    [[], [], [], [], [], [], ["dogs"]] := by
  decide +kernel

end ApiAtlas
