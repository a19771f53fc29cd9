import ApiAtlas.Proofs.UnitRemoval
import Mathlib.Data.List.Nodup

namespace ApiAtlas

variable {registry : Registry} {arena after : Arena} {gone : String → Bool} {name : String}

/-- No component that was left out is noted. -/
def Arena.Apart (arena : Arena) : Prop := ∀ name ∈ arena.failed, Entries.has arena.memo name = false

theorem Arena.Apart.of_grows (h : arena.Apart) (hg : arena.Grows after) : after.Apart := by
  intro name hf
  rw [hg.failed] at hf
  by_contra hm
  rw [Bool.not_eq_false] at hm
  rcases hg.unfailed name hm with hb | hn
  · rw [h name hf] at hb
    cases hb
  · exact hn hf

/-- A component that fails before it is noted. -/
theorem Arena.Apart.fail (h : arena.Apart) (hm : Entries.has arena.memo name = false) :
    ({ arena with failed := arena.failed ++ [name] } : Arena).Apart := by
  intro other ho
  rcases List.mem_append.mp ho with hf | hlast
  · exact h other hf
  · rw [List.mem_singleton.mp hlast]
    exact hm

/-- The arena as it is without the names of what was left out. -/
def Arena.unblamed (arena : Arena) : Arena := { arena with failed := [] }

/-- Work that comes to a result without a component that is gone comes to it without those
components as well. -/
theorem attempt_removal {α : Type} {work other : Resolving α} {g : α → α}
    (hw : (removal registry gone).Follows (fun _ => True) work other g)
    (hs : arena.Sound registry) {a : α} (he : Resolving.attempt work arena = (.ok a, after))
    (hkept : ∀ name, Entries.has after.memo name = true → gone name = false) :
    Resolving.attempt other arena.unblamed = (.ok (g a), after.unblamed) := by
  have hlost : ¬ (removal registry gone).lost after := by
    rintro ⟨name, hg, hn⟩
    rw [hkept name hn] at hg
    cases hg
  obtain ⟨after', hother, hrel⟩ := hw.attempt hs rfl trivial he hlost
  have hafter : after' = after.unblamed := hrel
  exact hafter ▸ hother

namespace Registry

variable {names : List String} {report : Report} {last : Arena}

theorem Sweeps.recalls (h : registry.Sweeps names arena report last) : arena.Recalls last := by
  induction h with
  | done => exact Arena.Recalls.refl _
  | noted _ _ ih => exact ih
  | kept _ _ _ hg _ _ ih => exact hg.recalls.trans ih
  | failed _ _ _ _ ih => exact ih

/-- What was left out stays left out. -/
theorem Sweeps.keeps_failed (h : registry.Sweeps names arena report last)
    (hf : name ∈ arena.failed) : name ∈ last.failed := by
  induction h with
  | done => exact hf
  | noted _ _ ih => exact ih hf
  | kept _ _ _ hg _ _ ih => exact ih (hg.failed ▸ hf)
  | failed _ _ _ _ ih => exact ih (List.mem_append_left _ hf)

/-- Components that fail are not noted, neither when they fail nor later. -/
theorem Sweeps.apart (h : registry.Sweeps names arena report last) (hapart : arena.Apart) :
    last.Apart := by
  induction h with
  | done => exact hapart
  | noted _ _ ih => exact ih hapart
  | kept _ _ _ hg _ _ ih => exact ih (hapart.of_grows hg)
  | failed _ hm _ _ ih => exact ih (hapart.fail hm)

/-- Components that are reported are left out. -/
theorem Sweeps.failed_of_mem (h : registry.Sweeps names arena report last) {entry : ReportEntry}
    (he : entry ∈ report) : ∃ name, entry.source = .component name ∧ name ∈ last.failed := by
  induction h with
  | done => simp at he
  | noted _ _ ih => exact ih he
  | kept _ _ _ _ _ _ ih => exact ih he
  | @failed first _ _ _ _ _ _ _ _ hrest ih =>
    rcases List.mem_cons.mp he with rfl | hr
    · exact ⟨first, rfl, hrest.keeps_failed (List.mem_append_right _ List.mem_cons_self)⟩
    · exact ih hr

/-- Without the components that fail, all the others come to what they come to beside them. -/
theorem Sweeps.without (h : registry.Sweeps names arena report last)
    (hgone : ∀ entry ∈ report, ∀ name, entry.source = .component name → gone name = true)
    (hkept : ∀ name, Entries.has last.memo name = true → gone name = false) :
    (registry.without gone).resolveNames (names.filter fun name => !gone name) arena.unblamed =
      ([], last.unblamed) := by
  induction h with
  | done => rfl
  | @noted name _ arena _ _ hm hrest ih =>
    have hname := hkept name (hrest.recalls name hm)
    rw [List.filter_cons_of_pos (by simpa using hname), resolveNames,
      if_pos (show Entries.has arena.unblamed.memo name = true from hm)]
    exact ih hgone hkept
  | @kept name _ arena after _ _ id hrested hm he _ hid hrest ih =>
    have hkept' : ∀ other, Entries.has after.memo other = true → gone other = false :=
      fun other ho => hkept other (hrest.recalls other ho)
    have hname := hkept' name (Entries.has_iff.mpr ⟨id, hid⟩)
    -- Nothing that is kept asks for what is gone, so the other side does the very same.
    have hother : Resolving.attempt ((registry.without gone).component name) arena.unblamed =
        (.ok id, after.unblamed) :=
      attempt_removal (component_follows_of_lenient trivial) hrested.sound he hkept'
    have hm' : ¬ Entries.has arena.unblamed.memo name = true := by
      rw [show Entries.has arena.unblamed.memo name = false from hm]
      decide
    rw [List.filter_cons_of_pos (by simpa using hname), resolveNames, if_neg hm', hother]
    exact ih hgone hkept
  -- A failure is rolled back here, and is not even attempted there.
  | @failed name _ _ _ _ _ _ _ _ _ ih =>
    have hname := hgone _ List.mem_cons_self name rfl
    rw [List.filter_cons_of_neg (by simpa using hname)]
    exact ih (fun entry he => hgone entry (List.mem_cons_of_mem _ he)) hkept

theorem resolveComponents_removal
    (hgone : ∀ entry ∈ (registry.resolveComponents {}).1, ∀ name, entry.source = .component name →
      gone name = true)
    (hkept : ∀ name, Entries.has (registry.resolveComponents {}).2.memo name = true →
      gone name = false) :
    (registry.without gone).resolveComponents {} =
      ([], (registry.resolveComponents {}).2.unblamed) := by
  have hkeys : Entries.keys (registry.without gone).schemas =
      (Entries.keys registry.schemas).filter fun name => !gone name := by
    unfold Entries.keys
    rw [List.filter_map]
    rfl
  unfold resolveComponents
  rw [hkeys]
  exact (sweeps_resolveNames _ {} (Arena.Rested.empty registry)).without hgone hkept

end Registry

namespace Surroundings

variable {around other : Surroundings} {units : List Source}

theorem resolveRoute_without (units : List Source) (endpoint : Endpoint) :
    around.resolveRoute (endpoint.without units) = around.resolveRoute endpoint := rfl

variable {endpoints : List Endpoint} {routes : List Route} {report : Report} {last : Arena}

/-- What is reported of some operations is in their order. -/
theorem Sweeps.sublist (h : around.Sweeps endpoints arena routes report last) :
    (report.map ReportEntry.source).Sublist (endpoints.map Endpoint.source) := by
  induction h with
  | done => exact List.Sublist.slnil
  | kept _ _ _ _ _ ih => exact ih.cons _
  | failed _ _ ih => exact ih.cons_cons _

/-- Without the operations that fail, all the others come to what they come to beside them. -/
theorem Sweeps.without (h : around.Sweeps endpoints arena routes report last)
    (ha : Alike (removal around.registry gone) around other)
    (hnodup : (endpoints.map Endpoint.source).Nodup)
    (hunits : ∀ endpoint ∈ endpoints, units.contains endpoint.source = true ↔
      endpoint.source ∈ report.map ReportEntry.source)
    (hkept : ∀ name, Entries.has last.memo name = true → gone name = false) :
    other.resolveRoutes ((endpoints.filter fun endpoint => !units.contains endpoint.source).map
        (Endpoint.without units)) arena.unblamed = ((routes, []), last.unblamed) := by
  induction h with
  | done => rfl
  | @kept endpoint _ arena after _ route _ _ hrested he _ _ hrest ih =>
    have hn := List.nodup_cons.mp hnodup
    have hnot : units.contains endpoint.source = false := by
      rw [← Bool.not_eq_true, hunits endpoint List.mem_cons_self]
      exact fun hm => hn.1 (hrest.sublist.subset hm)
    have hother : Resolving.attempt (other.resolveRoute endpoint) arena.unblamed =
        (.ok route, after.unblamed) := by
      have hfollows : (removal around.registry gone).Follows (fun _ => True)
          (around.resolveRoute endpoint) (other.resolveRoute endpoint) _ :=
        resolveRoute_follows ha
      have hmoved := attempt_removal hfollows hrested.sound he fun name hm =>
        hkept name (hrest.grows.recalls name hm)
      rwa [show Route.renumber (removal around.registry gone).move = id from
        Route.renumber_id] at hmoved
    rw [List.filter_cons_of_pos (by rw [hnot]; rfl), List.map_cons, resolveRoutes,
      resolveRoute_without, hother]
    simp only
    rw [ih hn.2 (fun endpoint' hm => hunits endpoint' (List.mem_cons_of_mem _ hm)) hkept]
  | @failed endpoint _ _ _ _ _ _ _ _ ih =>
    have hn := List.nodup_cons.mp hnodup
    have hin := (hunits endpoint List.mem_cons_self).mpr List.mem_cons_self
    rw [List.filter_cons_of_neg (by rw [hin]; decide)]
    refine ih hn.2 (fun endpoint' hm => ?_) hkept
    rw [hunits endpoint' (List.mem_cons_of_mem _ hm)]
    refine ⟨fun hr => (List.mem_cons.mp hr).resolve_left fun he' => ?_, List.mem_cons_of_mem _⟩
    have hsource : endpoint'.source = endpoint.source := he'
    exact hn.1 (hsource ▸ List.mem_map_of_mem hm)

end Surroundings

namespace Document

variable {settings : Settings} {document : Document}

/-- Where no path comes twice no operation does. -/
theorem nodup_endpoints (h : (Entries.keys document.paths).Nodup) :
    (document.endpoints.map Endpoint.source).Nodup := by
  have hpaths := List.pairwise_map.mp h
  unfold endpoints
  rw [List.map_flatMap, List.nodup_flatMap]
  refine ⟨fun (path, item) _ => ?_, hpaths.imp fun {first second} hne => ?_⟩
  · rw [List.map_filterMap]
    refine List.Nodup.filterMap ?_ (by decide)
    intro method method' source hs hs'
    simp only [Option.mem_def, Option.map_map, Option.map_eq_some_iff] at hs hs'
    obtain ⟨operation, _, rfl⟩ := hs
    obtain ⟨operation', _, he⟩ := hs'
    exact ((Source.route.inj he).1).symm
  · intro source hs hs'
    obtain ⟨path, item⟩ := first
    obtain ⟨path', item'⟩ := second
    simp only [List.mem_map, List.mem_filterMap, Option.map_eq_some_iff] at hs hs'
    obtain ⟨_, ⟨method, _, operation, _, rfl⟩, rfl⟩ := hs
    obtain ⟨_, ⟨method', _, operation', _, rfl⟩, he⟩ := hs'
    exact hne (Source.route.inj he).2.symm

variable {units : List Source}

theorem alike_without (settings : Settings) (document : Document) (units : List Source) :
    Surroundings.Alike
      (removal (document.surroundings settings).registry fun name => units.contains (.component name))
      (document.surroundings settings) ((document.without units).surroundings settings) := by
  have hregistry : ((document.without units).surroundings settings).registry =
      (document.surroundings settings).registry.without fun name =>
        units.contains (.component name) := by
    unfold surroundings Registry.without schemas Document.without
    cases document.components <;> rfl
  refine ⟨rfl, hregistry, ?_, ?_, ?_, rfl, fun node pos => ?_⟩
  · unfold surroundings Document.without
    cases document.components <;> rfl
  · unfold surroundings Document.without
    cases document.components <;> rfl
  · unfold surroundings Document.without
    cases document.components <;> rfl
  · rw [hregistry]
    exact Registry.resolve_follows_of_lenient trivial

theorem reported_eq : document.reported settings =
    ((document.surroundings settings).registry.resolveComponents {}).1.map ReportEntry.source ++
      ((document.surroundings settings).resolveRoutes document.endpoints
        (document.componentArena settings)).1.2.map ReportEntry.source := by
  unfold reported
  rw [resolve_eq, List.map_append]

/-- A component that is reported is one that was left out, and it is not noted. -/
theorem failed_of_reported {name : String} (h : .component name ∈ document.reported settings) :
    name ∈ (document.componentArena settings).failed ∧
      Entries.has (document.componentArena settings).memo name = false := by
  have hsweeps := sweeps_components settings document
  rw [reported_eq] at h
  rcases List.mem_append.mp h with hc | hr
  · obtain ⟨entry, hentry, hsource⟩ := List.mem_map.mp hc
    obtain ⟨name', hname, hf⟩ := hsweeps.failed_of_mem hentry
    cases hsource.symm.trans hname
    exact ⟨hf, hsweeps.apart (fun name hf => by simp at hf) name hf⟩
  · obtain ⟨endpoint, _, he⟩ := List.mem_map.mp ((sweeps_routes settings document).sublist.subset hr)
    cases he

/-- An operation is reported where it fails. -/
theorem route_reported_iff {endpoint : Endpoint} :
    (document.reported settings).contains endpoint.source = true ↔
      endpoint.source ∈ ((document.surroundings settings).resolveRoutes document.endpoints
        (document.componentArena settings)).1.2.map ReportEntry.source := by
  rw [List.contains_iff_mem, reported_eq, List.mem_append]
  refine ⟨fun h => h.resolve_left fun hc => ?_, .inr⟩
  obtain ⟨entry, hentry, hsource⟩ := List.mem_map.mp hc
  obtain ⟨name, hname, _⟩ := (sweeps_components settings document).failed_of_mem hentry
  rw [hname] at hsource
  cases hsource

/-- The document without the units that it is resolved without comes to the same routes and models,
and no unit of it fails. -/
theorem resolve_without_reported (h : (Entries.keys document.paths).Nodup) :
    (document.without (document.reported settings)).resolve settings =
      (document.routes settings, (document.finalArena settings).finish, []) := by
  have halike := alike_without settings document (document.reported settings)
  have hgrows := (sweeps_routes settings document).grows
  have hcomponents : ((document.without (document.reported settings)).surroundings
      settings).registry.resolveComponents {} =
        ([], (document.componentArena settings).unblamed) := by
    rw [halike.right]
    show ((document.surroundings settings).registry.without fun name =>
      (document.reported settings).contains (.component name)).resolveComponents {} = _
    refine Registry.resolveComponents_removal (fun entry he name hname => ?_) fun name hm => ?_
    · rw [List.contains_iff_mem, reported_eq, ← hname]
      exact List.mem_append_left _ (List.mem_map_of_mem he)
    · rw [← Bool.not_eq_true, List.contains_iff_mem]
      intro hreported
      have hnot := (failed_of_reported hreported).2
      have hm' : Entries.has (document.componentArena settings).memo name = true := hm
      rw [hnot] at hm'
      cases hm'
  have hroutes := (sweeps_routes settings document).without halike (nodup_endpoints h)
    (fun endpoint _ => route_reported_iff) fun name hm => ?_
  · rw [resolve_eq]
    unfold routes finalArena componentArena
    rw [endpoints_without, hcomponents, hroutes]
    rfl
  · rw [← Bool.not_eq_true, List.contains_iff_mem]
    intro hreported
    obtain ⟨hf, hnot⟩ := failed_of_reported hreported
    rcases hgrows.unfailed name hm with hb | hn
    · rw [hnot] at hb
      cases hb
    · exact hn hf

end Document

namespace Atlas

/-- What fails leaves no trace: without the units that its report names, a document has the same
atlas with nothing reported, or the same names collide. No path of a document comes twice. -/
theorem of_without_reported (settings : Settings) (document : Document)
    (h : (Entries.keys document.paths).Nodup) :
    Atlas.of settings (document.without (document.reported settings)) =
      (Atlas.of settings document).map fun atlas => { atlas with report := [] } := by
  unfold Atlas.of
  rw [Document.resolve_without_reported h, Document.resolve_eq]
  simp only
  cases (document.finalArena settings).finish.assign settings.naming <;> rfl

/-- A component that refers to a missing one, and two operations of which one answers with it. -/
def danglingDocument : Document where
  openapi := "3.0.3"
  info := { title := "Dangling", version := "1" }
  paths := [
    ("/bad", { get := some { responses := { entries := [("200", .inline { content :=
      [("application/json", { schema := some (.ref "#/components/schemas/Bad") })] })] } } }),
    ("/good", { get := some { responses := { entries := [("200", .inline { content :=
      [("application/json", { schema := some (.ref "#/components/schemas/Good") })] })] } } })]
  components := some { schemas := [
    ("Bad", .inline { properties := [("good", .ref "#/components/schemas/Good"),
      ("gone", .ref "#/components/schemas/Gone")] }),
    ("Good", .inline { properties := [("next", .ref "#/components/schemas/Good")] })] }

theorem of_without_reported_dangling :
    danglingDocument.reported {} = [.component "Bad", .route .get "/bad"] ∧
      Atlas.of {} (danglingDocument.without [.component "Bad", .route .get "/bad"]) =
        (Atlas.of {} danglingDocument).map fun atlas => { atlas with report := [] } := by
  have hreported : danglingDocument.reported {} = [.component "Bad", .route .get "/bad"] := by
    decide +kernel
  refine ⟨hreported, ?_⟩
  rw [← hreported]
  exact of_without_reported {} danglingDocument (by decide)

end Atlas

end ApiAtlas
