import ApiAtlas.Proofs.RouteSoundness
import ApiAtlas.Proofs.RouteTreeItems
import ApiAtlas.Proofs.UniqueNames

namespace ApiAtlas

variable {registry : Registry} {around : Surroundings} {settings : Settings} {document : Document}
  {arena after : Arena}

/-- A unit of work adds to the arena, or leaves it as it was. -/
theorem attempt_steady {α : Type} {work : Resolving α} {q : α → Arena → Prop}
    (hw : (growing registry).Runs (fun _ => True) work q) (hs : arena.Sound registry) :
    (∃ a after, Resolving.attempt work arena = (.ok a, after) ∧ after.Sound registry ∧
      arena.Grows after ∧ arena.Filled after ∧ q a after) ∨
    ∃ error, Resolving.attempt work arena = (.error error, arena) := by
  have he := Resolving.ensures_iff.mp (hw arena hs trivial)
  rw [Resolving.attempt_eq]
  cases ho : Resolving.outcome work arena with
  | mk result after =>
    cases result with
    | ok a =>
      obtain ⟨hsound, hl, hq⟩ := he.1 a after ho
      exact .inl ⟨a, after, rfl, hsound, hl.1, hl.2, hq⟩
    | error error =>
      refine .inr ⟨error, ?_⟩
      simp only [Arena.Grows.rollback (he.2 error after ho) hs.aligned]

/-- A sound arena between two units of work: each of its places has a model. -/
structure Arena.Rested (registry : Registry) (arena : Arena) : Prop where
  sound : arena.Sound registry
  filled : ({} : Arena).Filled arena

theorem Arena.Rested.empty (registry : Registry) : ({} : Arena).Rested registry :=
  ⟨Arena.Sound.empty registry, Arena.Filled.refl _⟩

theorem Arena.Rested.fail (h : arena.Rested registry) (name : String) :
    ({ arena with failed := arena.failed ++ [name] } : Arena).Rested registry := by
  have hkept : ∀ id model, arena.model? id = some model →
      ({ arena with failed := arena.failed ++ [name] } : Arena).model? id = some model :=
    fun _ _ hm => hm
  refine ⟨⟨h.sound.aligned, h.sound.placed, fun id model hm child hc => ?_, h.sound.aliased⟩,
    h.filled⟩
  have hh := h.sound.linked id model hm child hc
  cases child with
  | ref other place => exact hh
  | value place => exact Arena.Settled.mono hkept hh

theorem Arena.Rested.of_grows (h : arena.Rested registry) (hs : after.Sound registry)
    (hg : arena.Grows after) (hf : arena.Filled after) : after.Rested registry :=
  ⟨hs, h.filled.trans hg hf⟩

/-- Components resolved one after another, from one arena to another. -/
inductive Registry.Sweeps (registry : Registry) : List String → Arena → Report → Arena → Prop
  | done {arena : Arena} (hrested : arena.Rested registry) : registry.Sweeps [] arena [] arena
  | noted {name : String} {rest : List String} {arena last : Arena} {report : Report}
      (hm : Entries.has arena.memo name = true) (hrest : registry.Sweeps rest arena report last) :
      registry.Sweeps (name :: rest) arena report last
  | kept {name : String} {rest : List String} {arena after last : Arena} {report : Report}
      {id : ModelId} (hrested : arena.Rested registry) (hm : Entries.has arena.memo name = false)
      (he : Resolving.attempt (registry.component name) arena = (.ok id, after))
      (hg : arena.Grows after) (hid : Entries.get? after.memo name = some id)
      (hrest : registry.Sweeps rest after report last) :
      registry.Sweeps (name :: rest) arena report last
  | failed {name : String} {rest : List String} {arena last : Arena} {report : Report}
      {error : ResolveError} (hrested : arena.Rested registry)
      (hm : Entries.has arena.memo name = false)
      (he : Resolving.attempt (registry.component name) arena = (.error error, arena))
      (hrest : registry.Sweeps rest { arena with failed := arena.failed ++ [name] } report last) :
      registry.Sweeps (name :: rest) arena (⟨.component name, error⟩ :: report) last

theorem Registry.sweeps_resolveNames (names : List String) : ∀ arena : Arena,
    arena.Rested registry → registry.Sweeps names arena (registry.resolveNames names arena).1
      (registry.resolveNames names arena).2 := by
  induction names with
  | nil => exact fun _ hrested => .done hrested
  | cons name rest ih =>
    intro arena hrested
    rw [resolveNames]
    split
    next hm => exact .noted hm (ih arena hrested)
    next hm =>
      have hm : Entries.has arena.memo name = false := by simpa using hm
      have hw : (growing registry).Runs (fun _ => True) (registry.component name) _ :=
        component_steady
      rcases attempt_steady hw hrested.sound with ⟨id, after, he, hs, hg, hf, hid⟩ | ⟨error, he⟩
      · rw [he]
        exact .kept hrested hm he hg hid (ih after (hrested.of_grows hs hg hf))
      · rw [he]
        exact .failed hrested hm he (ih _ (hrested.fail name))

theorem Registry.Sweeps.rested {names : List String} {report : Report}
    (h : registry.Sweeps names arena report after) : after.Rested registry := by
  induction h with
  | done hrested => exact hrested
  | noted _ _ ih => exact ih
  | kept _ _ _ _ _ _ ih => exact ih
  | failed _ _ _ _ ih => exact ih

/-- Operations resolved one after another, from one arena to another. -/
inductive Surroundings.Sweeps (around : Surroundings) :
    List Endpoint → Arena → List Route → Report → Arena → Prop
  | done {arena : Arena} (hrested : arena.Rested around.registry) :
      around.Sweeps [] arena [] [] arena
  | kept {endpoint : Endpoint} {rest : List Endpoint} {arena after last : Arena} {route : Route}
      {routes : List Route} {report : Report} (hrested : arena.Rested around.registry)
      (he : Resolving.attempt (around.resolveRoute endpoint) arena = (.ok route, after))
      (hg : arena.Grows after) (hheld : AllHeld route.models after)
      (hrest : around.Sweeps rest after routes report last) :
      around.Sweeps (endpoint :: rest) arena (route :: routes) report last
  | failed {endpoint : Endpoint} {rest : List Endpoint} {arena last : Arena}
      {routes : List Route} {report : Report} {error : ResolveError}
      (he : Resolving.attempt (around.resolveRoute endpoint) arena = (.error error, arena))
      (hrest : around.Sweeps rest arena routes report last) :
      around.Sweeps (endpoint :: rest) arena routes (⟨endpoint.source, error⟩ :: report) last

namespace Surroundings

variable {endpoints : List Endpoint} {routes : List Route} {report : Report}

theorem sweeps_resolveRoutes (endpoints : List Endpoint) : ∀ arena : Arena,
    arena.Rested around.registry → around.Sweeps endpoints arena
      (around.resolveRoutes endpoints arena).1.1 (around.resolveRoutes endpoints arena).1.2
      (around.resolveRoutes endpoints arena).2 := by
  induction endpoints with
  | nil => exact fun _ hrested => .done hrested
  | cons endpoint rest ih =>
    intro arena hrested
    rw [resolveRoutes]
    have hw : (growing around.registry).Runs (fun _ => True) (around.resolveRoute endpoint) _ :=
      resolveRoute_steady
    rcases attempt_steady hw hrested.sound with ⟨route, after, he, hs, hg, hf, hheld⟩ | ⟨error, he⟩
    · rw [he]
      exact .kept hrested he hg hheld (ih after (hrested.of_grows hs hg hf))
    · rw [he]
      exact .failed he (ih arena hrested)

theorem Sweeps.rested (h : around.Sweeps endpoints arena routes report after) :
    after.Rested around.registry := by
  induction h with
  | done hrested => exact hrested
  | kept _ _ _ _ _ ih => exact ih
  | failed _ _ ih => exact ih

theorem Sweeps.grows (h : around.Sweeps endpoints arena routes report after) :
    arena.Grows after := by
  induction h with
  | done => exact Arena.Grows.refl _
  | kept _ _ hg _ _ ih => exact hg.trans ih
  | failed _ _ ih => exact ih

/-- What a route refers to is held by the arena that is left in the end. -/
theorem Sweeps.held (h : around.Sweeps endpoints arena routes report after) :
    ∀ route ∈ routes, AllHeld route.models after := by
  induction h with
  | done => simp
  | kept _ _ _ hheld hrest ih =>
    intro route hr
    rcases List.mem_cons.mp hr with rfl | hr
    · exact hheld.mono hrest.grows
    · exact ih route hr
  | failed _ _ ih => exact ih

end Surroundings

namespace Document

/-- What the operations of a document are resolved against. -/
def surroundings (settings : Settings) (document : Document) : Surroundings :=
  ⟨⟨document.schemas, settings.enums.openExtensions⟩, document.components.getD {}, settings.naming⟩

/-- The arena once all components are resolved. -/
def componentArena (settings : Settings) (document : Document) : Arena :=
  ((document.surroundings settings).registry.resolveComponents {}).2

/-- The arena once all operations are resolved. -/
def finalArena (settings : Settings) (document : Document) : Arena :=
  ((document.surroundings settings).resolveRoutes document.endpoints
    (document.componentArena settings)).2

/-- The routes of the operations that resolved. -/
def routes (settings : Settings) (document : Document) : List Route :=
  ((document.surroundings settings).resolveRoutes document.endpoints
    (document.componentArena settings)).1.1

theorem resolve_eq : document.resolve settings =
    (document.routes settings, (document.finalArena settings).finish,
      ((document.surroundings settings).registry.resolveComponents {}).1 ++
        ((document.surroundings settings).resolveRoutes document.endpoints
          (document.componentArena settings)).1.2) := rfl

theorem sweeps_components (settings : Settings) (document : Document) :
    (document.surroundings settings).registry.Sweeps
      (Entries.keys (document.surroundings settings).registry.schemas) {}
      ((document.surroundings settings).registry.resolveComponents {}).1
      (document.componentArena settings) :=
  Registry.sweeps_resolveNames _ _ (Arena.Rested.empty _)

theorem componentArena_rested (settings : Settings) (document : Document) :
    (document.componentArena settings).Rested (document.surroundings settings).registry :=
  (sweeps_components settings document).rested

theorem sweeps_routes (settings : Settings) (document : Document) :
    (document.surroundings settings).Sweeps document.endpoints (document.componentArena settings)
      (document.routes settings)
      ((document.surroundings settings).resolveRoutes document.endpoints
        (document.componentArena settings)).1.2
      (document.finalArena settings) :=
  Surroundings.sweeps_resolveRoutes _ _ (componentArena_rested settings document)

theorem finalArena_rested (settings : Settings) (document : Document) :
    (document.finalArena settings).Rested (document.surroundings settings).registry :=
  (sweeps_routes settings document).rested

theorem routes_held {route : Route} (h : route ∈ document.routes settings) :
    AllHeld route.models (document.finalArena settings) :=
  (sweeps_routes settings document).held route h

end Document

namespace Arena

theorem nodes_finish_eq (hf : ({} : Arena).Filled arena) :
    arena.finish.nodes.map some = arena.slots := by
  have hs : ∀ slot ∈ arena.slots, ∃ model, slot = some model := by
    intro slot hm
    obtain ⟨id, hi, he⟩ := List.mem_iff_getElem.mp hm
    obtain ⟨model, hp⟩ := Option.isSome_iff_exists.mp (hf id (Nat.zero_le _) hi)
    rw [model?, List.getElem?_eq_getElem hi, he] at hp
    exact ⟨model, hp⟩
  unfold finish
  simp only
  generalize arena.slots = slots at hs
  induction slots with
  | nil => rfl
  | cons slot rest ih =>
    obtain ⟨model, rfl⟩ := hs slot List.mem_cons_self
    have hrest := ih fun other ho => hs other (List.mem_cons_of_mem _ ho)
    simpa using hrest

/-- In an arena without empty places the models keep their places when it is finished. -/
theorem get?_finish (hf : ({} : Arena).Filled arena) (id : ModelId) :
    arena.finish.get? id = arena.model? id := by
  unfold model? Models.get?
  rw [← nodes_finish_eq hf, List.getElem?_map]
  cases arena.finish.nodes[id]? <;> rfl

theorem length_finish (hf : ({} : Arena).Filled arena) :
    arena.finish.nodes.length = arena.slots.length := by
  rw [← nodes_finish_eq hf, List.length_map]

end Arena

namespace Atlas

variable {atlas : Atlas}

/-- All that the models and routes of an atlas refer to. -/
def mentions (atlas : Atlas) : List Resolved :=
  atlas.models.nodes.flatMap Model.children ++ atlas.root.all.flatMap Route.models

/-- All places that occur in an atlas. -/
def places (atlas : Atlas) : List ModelId :=
  atlas.mentions.map Resolved.id ++ Entries.values atlas.models.components ++
    atlas.names.map Prod.fst

theorem of_eq_ok (h : Atlas.of settings document = .ok atlas) :
    atlas.models = (document.finalArena settings).finish ∧
      atlas.root.all.Perm (document.routes settings) ∧
      atlas.models.assign settings.naming = .ok atlas.names ∧
      atlas.report = (document.resolve settings).2.2 := by
  unfold Atlas.of at h
  rw [Document.resolve_eq] at h
  simp only at h
  cases hn : (document.finalArena settings).finish.assign settings.naming with
  | error collision =>
    rw [hn] at h
    cases h
  | ok names =>
    rw [hn] at h
    cases h
    exact ⟨rfl, Root.all_build _ _ _, hn, rfl⟩

/-- What is computed of the atlas of a document is true of one that it has. -/
theorem exists_of_any {p : Atlas → Bool}
    (h : (Atlas.of settings document).toOption.any p = true) :
    ∃ atlas, Atlas.of settings document = .ok atlas ∧ p atlas = true := by
  cases ha : Atlas.of settings document with
  | error collision =>
    rw [ha] at h
    cases h
  | ok atlas =>
    rw [ha] at h
    exact ⟨atlas, rfl, h⟩

theorem mentions_held (h : Atlas.of settings document = .ok atlas) :
    AllHeld atlas.mentions (document.finalArena settings) := by
  obtain ⟨hmodels, hroutes, _⟩ := of_eq_ok h
  have hrested := Document.finalArena_rested settings document
  intro resolved hr
  rcases List.mem_append.mp hr with hn | hroot
  · obtain ⟨model, hm, hc⟩ := List.mem_flatMap.mp hn
    obtain ⟨id, hi⟩ := List.mem_iff_getElem?.mp hm
    have hmodel : (document.finalArena settings).model? id = some model := by
      rw [← Arena.get?_finish hrested.filled, ← hmodels]
      exact hi
    exact hrested.sound.linked id model hmodel resolved hc
  · obtain ⟨route, hm, hc⟩ := List.mem_flatMap.mp hroot
    exact Document.routes_held (hroutes.mem_iff.mp hm) resolved hc

/-- A reference carries the place of the component that it names, wherever it occurs; so two
references to one component carry one place. -/
theorem component?_of_ref (h : Atlas.of settings document = .ok atlas) :
    (∀ name id, .ref name id ∈ atlas.mentions → atlas.models.component? name = some id) ∧
      ∀ name id other, .ref name id ∈ atlas.mentions → .ref name other ∈ atlas.mentions →
        id = other := by
  have hone : ∀ name id, .ref name id ∈ atlas.mentions →
      atlas.models.component? name = some id := by
    intro name id hm
    rw [(of_eq_ok h).1]
    exact mentions_held h _ hm
  refine ⟨hone, fun name id other hm ho => ?_⟩
  exact Option.some.inj ((hone name id hm).symm.trans (hone name other ho))

/-- A document with a component that refers to itself and an operation that answers with it. -/
def chainDocument : Document where
  openapi := "3.0.3"
  info := { title := "Chain", version := "1" }
  paths := [("/links", { get := some { responses := { entries := [("200", .inline { content :=
    [("application/json", { schema := some (.ref "#/components/schemas/Link") })] })] } } })]
  components := some { schemas := [("Link", .inline { properties :=
    [("next", .ref "#/components/schemas/Link")] })] }

theorem component?_of_ref_chain :
    ∃ atlas, Atlas.of {} chainDocument = .ok atlas ∧
      atlas.mentions = [.ref "Link" 0, .ref "Link" 0] ∧
      atlas.models.component? "Link" = some 0 := by
  have hok : (Atlas.of {} chainDocument).toOption.any (fun atlas =>
      atlas.mentions == [.ref "Link" 0, .ref "Link" 0]) = true := by decide +kernel
  cases h : Atlas.of {} chainDocument with
  | error collision =>
    rw [h] at hok
    cases hok
  | ok atlas =>
    rw [h] at hok
    have hm : atlas.mentions = [.ref "Link" 0, .ref "Link" 0] := eq_of_beq hok
    refine ⟨atlas, rfl, hm, (component?_of_ref h).1 "Link" 0 ?_⟩
    rw [hm]
    exact List.mem_cons_self

/-- When a document's arena is finished each place has its model, so that none moves, and every
place that occurs among the models, the components, the routes or the names has a model. -/
theorem finalArena_closed (settings : Settings) (document : Document) :
    (∀ slot ∈ (document.finalArena settings).slots, slot.isSome) ∧
      (document.resolve settings).2.1 = (document.finalArena settings).finish ∧
      (∀ id, (document.finalArena settings).finish.get? id =
        (document.finalArena settings).model? id) ∧
      (document.finalArena settings).finish.scopes.length =
        (document.finalArena settings).finish.nodes.length ∧
      (∀ route ∈ (document.resolve settings).1, ∀ resolved ∈ route.models,
        ((document.finalArena settings).finish.get? resolved.id).isSome) ∧
      ∀ atlas, Atlas.of settings document = .ok atlas →
        atlas.models = (document.finalArena settings).finish ∧
          ∀ id ∈ atlas.places, (atlas.models.get? id).isSome := by
  have hrested := Document.finalArena_rested settings document
  have hlen := Arena.length_finish hrested.filled
  have hsome : ∀ id : Nat, id < (document.finalArena settings).slots.length →
      ((document.finalArena settings).finish.get? id).isSome := by
    intro id hi
    rw [Arena.get?_finish hrested.filled]
    exact hrested.filled id (Nat.zero_le _) hi
  refine ⟨fun slot hs => ?_, rfl, Arena.get?_finish hrested.filled, ?_, ?_, ?_⟩
  · rw [← Arena.nodes_finish_eq hrested.filled] at hs
    obtain ⟨model, _, rfl⟩ := List.mem_map.mp hs
    rfl
  · rw [hlen]
    exact hrested.sound.aligned
  · intro route hr resolved hm
    exact hsome _ (hrested.sound.holds_lt (Document.routes_held hr resolved hm))
  · intro atlas h
    obtain ⟨hmodels, _, hnames, _⟩ := of_eq_ok h
    refine ⟨hmodels, fun id hi => ?_⟩
    rw [hmodels]
    rcases List.mem_append.mp hi with hi | hn
    · rcases List.mem_append.mp hi with hm | hc
      · obtain ⟨resolved, hr, rfl⟩ := List.mem_map.mp hm
        exact hsome _ (hrested.sound.holds_lt (mentions_held h resolved hr))
      · rw [hmodels] at hc
        obtain ⟨pair, hp, rfl⟩ := List.mem_map.mp hc
        exact hsome _ (hrested.sound.placed pair hp)
    · rw [Models.keys_assign hnames, hmodels] at hn
      exact hsome id (hlen ▸ Models.lt_of_mem_nameable hn)

theorem finalArena_closed_chain :
    ∃ atlas, Atlas.of {} chainDocument = .ok atlas ∧ 0 ∈ atlas.places ∧
      (atlas.models.get? 0).isSome := by
  have hok : (Atlas.of {} chainDocument).toOption.any (fun atlas =>
      atlas.places.contains 0) = true := by decide +kernel
  cases h : Atlas.of {} chainDocument with
  | error collision =>
    rw [h] at hok
    cases hok
  | ok atlas =>
    rw [h] at hok
    have hm : 0 ∈ atlas.places := List.contains_iff_mem.mp hok
    exact ⟨atlas, rfl, hm, ((finalArena_closed {} chainDocument).2.2.2.2.2 atlas h).2 0 hm⟩

end Atlas

end ApiAtlas
