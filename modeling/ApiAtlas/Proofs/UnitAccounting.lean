import ApiAtlas.Proofs.FailureIsolation
import Mathlib.Data.List.Count

namespace ApiAtlas

variable {registry : Registry} {arena after last : Arena} {name : String} {report : Report}

/-- Each noted component is one of the registry, and none is noted twice. -/
structure Arena.Confined (registry : Registry) (arena : Arena) : Prop where
  distinct : (Entries.keys arena.memo).Nodup
  known : ∀ name, Entries.has arena.memo name = true → Entries.has registry.schemas name = true

theorem Arena.Confined.remember (h : arena.Confined registry)
    (hname : Entries.has registry.schemas name = true) (id : ModelId) :
    (arena.remember name id).Confined registry := by
  refine ⟨Entries.nodup_keys_set h.distinct, fun other ho => ?_⟩
  rcases Entries.mem_keys_set.mp (Entries.has_iff_mem_keys.mp ho) with rfl | hold
  · exact hname
  · exact h.known other (Entries.has_iff_mem_keys.mpr hold)

/-- Resolving beside itself, which carries `Arena.Confined` through all its steps. -/
def confinement (registry : Registry) : Pairing where
  left := registry
  right := registry
  move := id
  rel s t := t = s ∧ s.Confined registry
  lost _ := False
  lenient := True
  extensions := rfl
  lost_mono h _ := h
  lost_lenient _ := trivial
  memo := by
    rintro s t ⟨rfl, _⟩ name
    simp
  failed := by
    rintro s t ⟨rfl, _⟩ name
    exact .inl rfl
  schemas name := .inl rfl
  written := by
    rintro s t ⟨rfl, _⟩ _ path name _ _ location
    exact .inr rfl
  model := by
    rintro s t ⟨rfl, _⟩ id _
    rw [Model.renumber_id, Option.map_id]
    rfl
  place := by
    rintro s t ⟨rfl, _⟩
    rfl
  reserve := by
    rintro s t ⟨rfl, hs⟩ scope
    exact ⟨rfl, hs.distinct, hs.known⟩
  remember := by
    rintro s t ⟨rfl, hs⟩ name id hname _ _ _
    exact ⟨rfl, hs.remember (Entries.has_iff.mpr (Option.isSome_iff_exists.mp hname)) id⟩
  fill := by
    rintro s t ⟨rfl, hs⟩ id _ _ model
    rw [Model.renumber_id]
    exact ⟨rfl, hs.distinct, hs.known⟩

theorem Arena.Confined.of_attempt {α : Type} {work : Resolving α} {g : α → α} {a : α}
    (hw : (confinement registry).Follows (fun _ => True) work work g) (hs : arena.Sound registry)
    (h : arena.Confined registry) (he : Resolving.attempt work arena = (.ok a, after)) :
    after.Confined registry := by
  obtain ⟨_, _, _, hc⟩ := hw.attempt hs ⟨rfl, h⟩ trivial he id
  exact hc

namespace Registry

variable {names : List String}

theorem Sweeps.confined (h : registry.Sweeps names arena report last)
    (hc : arena.Confined registry) : last.Confined registry := by
  induction h with
  | done => exact hc
  | noted _ _ ih => exact ih hc
  | @kept name _ _ _ _ _ _ hrested _ he _ _ _ ih =>
    have hw : (confinement registry).Follows (fun _ => True) (registry.component name)
        (registry.component name) id := component_follows_of_lenient trivial
    exact ih (hc.of_attempt hw hrested.sound he)
  | failed _ _ _ _ ih => exact ih ⟨hc.distinct, hc.known⟩

/-- The components that are reported are those that are not noted in the end. -/
theorem Sweeps.reported (h : registry.Sweeps names arena report last) (hapart : arena.Apart) :
    report.map ReportEntry.source =
      (names.filter fun name => !Entries.has last.memo name).map .component := by
  induction h with
  | done => rfl
  | @noted name _ _ _ _ hm hrest ih =>
    have hlast := hrest.recalls name hm
    rw [List.filter_cons_of_neg (by simpa using hlast)]
    exact ih hapart
  | @kept name _ _ _ _ _ id _ _ _ hg hid hrest ih =>
    have hlast := hrest.recalls name (Entries.has_iff.mpr ⟨id, hid⟩)
    rw [List.filter_cons_of_neg (by simpa using hlast)]
    exact ih (hapart.of_grows hg)
  | @failed name _ _ _ _ _ _ hm _ hrest ih =>
    have hnext := hapart.fail hm
    have hlast := hrest.apart hnext name
      (hrest.keeps_failed (List.mem_append_right _ List.mem_cons_self))
    rw [List.filter_cons_of_pos (by simpa using hlast), List.map_cons, List.map_cons, ih hnext]

end Registry

/-- The unit that a route came of. -/
def Route.source (route : Route) : Source := .route route.method route.path

namespace Surroundings

variable {around : Surroundings} {endpoint : Endpoint} {endpoints : List Endpoint} {route : Route}
  {routes : List Route}

theorem resolveRoute_source (he : Resolving.attempt (around.resolveRoute endpoint) arena =
    (.ok route, after)) : route.source = endpoint.source := by
  have hroute : (around.resolveRoute endpoint).Ensures arena
      (fun route _ => route.source = endpoint.source) fun _ => True := by
    unfold resolveRoute
    refine Resolving.ensures_bind Resolving.ensures_true fun input _ _ => ?_
    cases endpoint.operation.requestBody <;>
    · refine Resolving.ensures_bind Resolving.ensures_true fun body _ _ => ?_
      exact Resolving.ensures_bind Resolving.ensures_true fun _ _ _ => Resolving.ensures_pure rfl
  exact (Resolving.ensures_iff.mp hroute).1 route after (Resolving.attempt_eq_ok.mp he)

theorem alike_confinement (around : Surroundings) :
    Alike (confinement around.registry) around around where
  left := rfl
  right := rfl
  parameters := rfl
  requestBodies := rfl
  responses := rfl
  naming := rfl
  resolve _ _ := Registry.resolve_follows_of_lenient trivial

theorem Sweeps.confined (h : around.Sweeps endpoints arena routes report last)
    (hc : arena.Confined around.registry) : last.Confined around.registry := by
  induction h with
  | done => exact hc
  | kept hrested he _ _ _ ih =>
    exact ih (hc.of_attempt (resolveRoute_follows (alike_confinement around)) hrested.sound he)
  | failed _ _ ih => exact ih hc

/-- Each operation has its route or is reported. -/
theorem Sweeps.perm (h : around.Sweeps endpoints arena routes report last) :
    (routes.map Route.source ++ report.map ReportEntry.source).Perm
      (endpoints.map Endpoint.source) := by
  induction h with
  | done => exact .nil
  | kept _ he _ _ _ ih =>
    rw [List.map_cons, List.map_cons, resolveRoute_source he]
    exact ih.cons _
  | failed _ _ ih => exact List.perm_middle.trans (ih.cons _)

end Surroundings

namespace Document

variable {settings : Settings} {document : Document}

/-- The units of a document: its components, then the operations of each path. -/
def units (document : Document) : List Source :=
  (Entries.keys document.schemas).map .component ++ document.paths.flatMap fun (path, item) =>
    ([.get, .post, .put, .delete, .patch, .options, .head, .trace].filter fun method =>
      (item.operation? method).isSome).map fun method => .route method path

theorem filterMap_operation? (path : String) (item : PathItem) (methods : List Method) :
    (methods.filterMap fun method => (item.operation? method).map fun operation =>
        (⟨path, item, method, operation⟩ : Endpoint)).map Endpoint.source =
      (methods.filter fun method => (item.operation? method).isSome).map fun method =>
        .route method path := by
  induction methods with
  | nil => rfl
  | cons method rest ih =>
    cases ho : item.operation? method with
    | none =>
      rw [List.filterMap_cons_none (by rw [ho]; rfl), List.filter_cons_of_neg (by simp [ho]), ih]
    | some operation =>
      rw [List.filterMap_cons_some (by rw [ho]; rfl), List.filter_cons_of_pos (by simp [ho]),
        List.map_cons, List.map_cons, ih]
      rfl

theorem units_eq : document.units =
    (Entries.keys document.schemas).map .component ++ document.endpoints.map Endpoint.source := by
  unfold units endpoints
  rw [List.map_flatMap]
  congr 2
  funext (path, item)
  exact (filterMap_operation? path item _).symm

theorem nodup_units (hschemas : (Entries.keys document.schemas).Nodup)
    (hpaths : (Entries.keys document.paths).Nodup) : document.units.Nodup := by
  rw [units_eq]
  refine List.nodup_append.mpr ⟨hschemas.map fun _ _ => Source.component.inj,
    nodup_endpoints hpaths, fun unit hu other ho => ?_⟩
  obtain ⟨name, _, rfl⟩ := List.mem_map.mp hu
  obtain ⟨endpoint, _, rfl⟩ := List.mem_map.mp ho
  exact Source.noConfusion

theorem mem_units_of_operation? {path : String} {item : PathItem} {method : Method}
    (hi : (path, item) ∈ document.paths) (ho : (item.operation? method).isSome) :
    .route method path ∈ document.units := by
  refine List.mem_append_right _ (List.mem_flatMap.mpr ⟨(path, item), hi, ?_⟩)
  refine List.mem_map_of_mem (List.mem_filter.mpr ⟨?_, ho⟩)
  cases method <;> decide

theorem reported_components :
    ((document.surroundings settings).registry.resolveComponents {}).1.map ReportEntry.source =
      ((Entries.keys document.schemas).filter fun name =>
        !Entries.has (document.componentArena settings).memo name).map .component :=
  (sweeps_components settings document).reported fun name hf => by simp at hf

theorem finalArena_confined (settings : Settings) (document : Document) :
    (document.finalArena settings).Confined (document.surroundings settings).registry := by
  have hempty : ({} : Arena).Confined (document.surroundings settings).registry :=
    ⟨List.nodup_nil, fun name hm => by simp [Entries.has] at hm⟩
  exact (sweeps_routes settings document).confined
    ((sweeps_components settings document).confined hempty)

/-- No operation notes a component. -/
theorem has_finalArena_iff : Entries.has (document.finalArena settings).memo name = true ↔
    name ∈ Entries.keys document.schemas ∧
      Entries.has (document.componentArena settings).memo name = true := by
  have hgrows := (sweeps_routes settings document).grows
  refine ⟨fun hm => ?_, fun h => hgrows.recalls name h.2⟩
  have hname : name ∈ Entries.keys document.schemas :=
    Entries.has_iff_mem_keys.mp ((finalArena_confined settings document).known name hm)
  refine ⟨hname, ?_⟩
  -- A component that had no place by then was left out, so no operation could note it.
  by_contra hnot
  have hreported : .component name ∈ document.reported settings := by
    rw [reported_eq, reported_components]
    refine List.mem_append_left _ (List.mem_map_of_mem (List.mem_filter.mpr ⟨hname, ?_⟩))
    simpa using hnot
  obtain ⟨hfailed, _⟩ := failed_of_reported hreported
  rcases hgrows.unfailed name hm with hb | hn
  · exact hnot hb
  · exact hn hfailed

theorem keys_finalArena_perm (hschemas : (Entries.keys document.schemas).Nodup) :
    (Entries.keys (document.finalArena settings).memo).Perm
      ((Entries.keys document.schemas).filter fun name =>
        Entries.has (document.componentArena settings).memo name) := by
  refine (List.perm_ext_iff_of_nodup (finalArena_confined settings document).distinct
    (hschemas.filter _)).mpr fun name => ?_
  rw [← Entries.has_iff_mem_keys, has_finalArena_iff, List.mem_filter]

theorem reported_sublist : (document.reported settings).Sublist document.units := by
  rw [reported_eq, units_eq, reported_components]
  exact (List.filter_sublist.map _).append (sweeps_routes settings document).sublist

end Document

theorem Report.length_forRoute (report : Report) (method : Method) (path : String) :
    (report.forRoute method path).length =
      (report.map ReportEntry.source).count (.route method path) := by
  rw [List.count_eq_countP, List.countP_map, List.countP_eq_length_filter]
  rfl

namespace Atlas

variable {settings : Settings} {document : Document} {atlas : Atlas}

/-- The units that an atlas keeps: its components, and the operations of its routes. -/
def kept (atlas : Atlas) : List Source :=
  (Entries.keys atlas.models.components).map .component ++ atlas.root.all.map Route.source

/-- The units that an atlas reports. -/
def reported (atlas : Atlas) : List Source := atlas.report.map ReportEntry.source

/-- The routes of one operation. -/
def routesOf (atlas : Atlas) (method : Method) (path : String) : List Route :=
  atlas.root.all.filter fun route => route.source == .route method path

theorem reported_eq (h : Atlas.of settings document = .ok atlas) :
    atlas.reported = document.reported settings := by
  rw [reported, (of_eq_ok h).2.2.2]
  rfl

/-- Each unit is kept or reported, and nothing else is. -/
theorem kept_append_reported_perm (h : Atlas.of settings document = .ok atlas)
    (hschemas : (Entries.keys document.schemas).Nodup) :
    (atlas.kept ++ atlas.reported).Perm document.units := by
  obtain ⟨hmodels, hroutes, _⟩ := of_eq_ok h
  have hsweeps := Document.sweeps_routes settings document
  let noted (name : String) : Bool := Entries.has (document.componentArena settings).memo name
  let names := Entries.keys document.schemas
  have hcomponents : (Entries.keys atlas.models.components).Perm (names.filter noted) := by
    rw [hmodels]
    exact Document.keys_finalArena_perm hschemas
  have hnames : ((names.filter noted).map Source.component ++
      (names.filter fun name => !noted name).map Source.component).Perm
        (names.map Source.component) := by
    rw [← List.map_append]
    exact (List.filter_append_perm noted names).map _
  rw [reported_eq h, Document.reported_eq, Document.reported_components, Document.units_eq]
  refine (((hcomponents.map _).append (hroutes.map _)).append_right _).trans ?_
  refine List.Perm.trans ?_ (hnames.append hsweeps.perm)
  rw [List.append_assoc, List.append_assoc]
  exact (List.perm_append_comm_assoc _ _ _).append_left _

theorem count_kept_component (atlas : Atlas) (name : String) :
    atlas.kept.count (.component name) = (Entries.keys atlas.models.components).count name := by
  have hroutes : .component name ∉ atlas.root.all.map Route.source := by
    intro hm
    obtain ⟨route, _, he⟩ := List.mem_map.mp hm
    cases he
  rw [kept, List.count_append, List.count_eq_zero_of_not_mem hroutes, Nat.add_zero]
  exact List.count_map_of_injective _ _ (fun _ _ => Source.component.inj) name

theorem count_kept_route (atlas : Atlas) (method : Method) (path : String) :
    atlas.kept.count (.route method path) = (atlas.routesOf method path).length := by
  have hcomponents : .route method path ∉
      (Entries.keys atlas.models.components).map Source.component := by
    intro hm
    obtain ⟨name, _, he⟩ := List.mem_map.mp hm
    cases he
  rw [kept, List.count_append, List.count_eq_zero_of_not_mem hcomponents, Nat.zero_add,
    List.count_eq_countP, List.countP_map, List.countP_eq_length_filter]
  rfl

/-- Every unit of a document is accounted for once. It is among the components or routes of the
atlas or it is reported, nothing else is, and the report is in the order of the document. No
component and no path of a document comes twice. -/
theorem units_accounted (h : Atlas.of settings document = .ok atlas)
    (hschemas : (Entries.keys document.schemas).Nodup)
    (hpaths : (Entries.keys document.paths).Nodup) :
    document.units.Nodup ∧ (atlas.kept ++ atlas.reported).Perm document.units ∧
      atlas.reported.Sublist document.units ∧
      (∀ name ∈ Entries.keys document.schemas,
        (atlas.models.component? name).isSome ∧ atlas.reported.count (.component name) = 0 ∨
          atlas.models.component? name = none ∧ atlas.reported.count (.component name) = 1) ∧
      (∀ path item method, (path, item) ∈ document.paths → (item.operation? method).isSome →
        (atlas.routesOf method path).length = 1 ∧
            (atlas.report.forRoute method path).length = 0 ∨
          (atlas.routesOf method path).length = 0 ∧
            (atlas.report.forRoute method path).length = 1) ∧
      ∀ method path, (atlas.report.forRoute method path).length ≤ 1 := by
  have hnodup := Document.nodup_units hschemas hpaths
  have hperm := kept_append_reported_perm h hschemas
  have hcount : ∀ unit, atlas.kept.count unit + atlas.reported.count unit =
      document.units.count unit := by
    intro unit
    rw [← List.count_append]
    exact hperm.count_eq unit
  have hsublist : atlas.reported.Sublist document.units :=
    reported_eq h ▸ Document.reported_sublist
  refine ⟨hnodup, hperm, hsublist, fun name hname => ?_, fun path item method hi ho => ?_,
    fun method path => ?_⟩
  · have hunit : .component name ∈ document.units :=
      List.mem_append_left _ (List.mem_map_of_mem hname)
    have hone := (hcount (.component name)).trans (List.count_eq_one_of_mem hnodup hunit)
    rw [count_kept_component] at hone
    cases hc : atlas.models.component? name with
    | some id =>
      have hmem : name ∈ Entries.keys atlas.models.components :=
        Entries.has_iff_mem_keys.mp (Entries.has_iff.mpr ⟨id, hc⟩)
      have hpos := List.count_pos_iff.mpr hmem
      exact .inl ⟨rfl, by omega⟩
    | none =>
      have hmem : name ∉ Entries.keys atlas.models.components := by
        intro hm
        rw [← Entries.has_iff_mem_keys, Entries.has_eq_false_iff.mpr hc] at hm
        cases hm
      have hzero := List.count_eq_zero_of_not_mem hmem
      exact .inr ⟨rfl, by omega⟩
  · have hunit := Document.mem_units_of_operation? hi ho
    have hone := (hcount (.route method path)).trans (List.count_eq_one_of_mem hnodup hunit)
    rw [count_kept_route] at hone
    rw [Report.length_forRoute]
    show _ ∧ atlas.reported.count _ = 0 ∨ _ ∧ atlas.reported.count _ = 1
    omega
  · rw [Report.length_forRoute]
    exact (hsublist.count_le _).trans (List.nodup_iff_count_le_one.mp hnodup _)

theorem units_accounted_dangling :
    (Entries.keys danglingDocument.schemas).Nodup ∧ (Entries.keys danglingDocument.paths).Nodup ∧
      danglingDocument.units =
        [.component "Bad", .component "Good", .route .get "/bad", .route .get "/good"] ∧
      ∃ atlas, Atlas.of {} danglingDocument = .ok atlas ∧
        atlas.kept = [.component "Good", .route .get "/good"] ∧
        atlas.reported = [.component "Bad", .route .get "/bad"] ∧
        (atlas.kept ++ atlas.reported).Perm danglingDocument.units ∧
        ∀ method path, (atlas.report.forRoute method path).length ≤ 1 := by
  have hok : (Atlas.of {} danglingDocument).toOption.any (fun atlas =>
      atlas.kept == [.component "Good", .route .get "/good"] &&
        atlas.reported == [.component "Bad", .route .get "/bad"]) = true := by decide +kernel
  have hschemas : (Entries.keys danglingDocument.schemas).Nodup := by decide
  have hpaths : (Entries.keys danglingDocument.paths).Nodup := by decide
  obtain ⟨atlas, h, hunits⟩ := exists_of_any hok
  obtain ⟨hkept, hreported⟩ := Bool.and_eq_true_iff.mp hunits
  obtain ⟨_, hperm, _, _, _, hone⟩ := units_accounted h hschemas hpaths
  exact ⟨hschemas, hpaths, by decide, atlas, h, eq_of_beq hkept, eq_of_beq hreported, hperm, hone⟩

end Atlas

end ApiAtlas
