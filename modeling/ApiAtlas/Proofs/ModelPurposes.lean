import ApiAtlas.Proofs.ModelStandards
import ApiAtlas.Resolve.Operation

namespace ApiAtlas

open Resolving

/-- If the model has a context, it starts with this name. -/
def Model.Below (root : String) (model : Model) : Prop :=
  ∀ context, model.context? = some context → context.root = root

/-- What the models from some place on are made for. A component may be entered on the way only where
its own models serve the purpose too. -/
structure Purpose (registry : Registry) where
  start : Nat
  /-- The scope that is noted for the models. -/
  scope : List String
  /-- The names that their contexts may start with, by what the arena knows so far. -/
  roots : Arena → String → Prop
  /-- What holds of all arenas on the way. -/
  ready : Arena → Prop
  roots_kept : ∀ {before after : Arena} {root : String}, before.Recalls after →
    roots before root → roots after root
  ready_kept : ∀ {before after : Arena}, before.Recalls after → after.failed = before.failed →
    ready before → ready after
  entered : ∀ {arena : Arena} {name : String}, ready arena →
    Entries.has registry.schemas name = true → Entries.get? arena.memo name = none →
    name ∉ arena.failed → scope = [] ∧
      ∀ after : Arena, Entries.has after.memo name = true → roots after name

/-- From its start on all places serve the purpose. -/
structure Arena.Serves {registry : Registry} (arena : Arena) (purpose : Purpose registry) :
    Prop where
  scopes : ∀ id scope, purpose.start ≤ id → arena.scopes[id]? = some scope → scope = purpose.scope
  contexts : ∀ id model context, purpose.start ≤ id → arena.model? id = some model →
    model.context? = some context → purpose.roots arena context.root

namespace Arena.Serves

variable {registry : Registry} {purpose : Purpose registry} {arena : Arena} {model : Model}
  {root : String}

theorem reserve (h : arena.Serves purpose) : (arena.reserve purpose.scope).2.Serves purpose := by
  refine ⟨fun id scope hi hs => ?_, fun id model context hi hm hc => ?_⟩
  · simp only [Arena.reserve, List.getElem?_append] at hs
    split at hs
    next => exact h.scopes id scope hi hs
    next => exact List.mem_singleton.mp (List.mem_of_getElem? hs)
  · rw [model?_reserve] at hm
    exact purpose.roots_kept (Recalls.refl arena) (h.contexts id model context hi hm hc)

theorem remember (h : arena.Serves purpose) (name : String) (id : ModelId) :
    (arena.remember name id).Serves purpose :=
  ⟨h.scopes, fun place model context hi hm hc =>
    purpose.roots_kept (arena.recalls_remember name id) (h.contexts place model context hi hm hc)⟩

theorem fill (h : arena.Serves purpose) (hm : model.Below root) (hr : purpose.roots arena root)
    (id : ModelId) : (arena.fill id model).Serves purpose := by
  refine ⟨h.scopes, fun place other context hi ho hc => ?_⟩
  have hkept : arena.Recalls (arena.fill id model) := Recalls.refl arena
  simp only [Arena.model?, Arena.fill, List.getElem?_set] at ho
  split at ho
  next =>
    split at ho
    next =>
      cases Option.some.inj ho
      exact purpose.roots_kept hkept (hm context hc ▸ hr)
    next => cases ho
  next => exact purpose.roots_kept hkept (h.contexts place other context hi ho hc)

/-- Behind all places there is none that would have to serve a purpose. -/
theorem at_end (ha : arena.scopes.length = arena.slots.length)
    (hstart : purpose.start = arena.slots.length) : arena.Serves purpose := by
  refine ⟨fun id scope hi hs => ?_, fun id model context hi hm _ => ?_⟩
  · rw [List.getElem?_eq_none (ha.trans hstart.symm ▸ hi)] at hs
    cases hs
  · exact absurd (model?_eq_some_lt hm) (Nat.not_lt.mpr (hstart ▸ hi))

/-- All places that were added since then have the scope. -/
theorem scopes_eq {before : Arena} (h : arena.Serves purpose) (hg : before.Grows arena)
    (hstart : purpose.start = before.slots.length)
    (hb : before.scopes.length = before.slots.length)
    (ha : arena.scopes.length = arena.slots.length) :
    arena.scopes = before.scopes ++
      List.replicate (arena.slots.length - before.slots.length) purpose.scope := by
  obtain ⟨added, hadded⟩ := hg.scopes
  have hlength : added.length = arena.slots.length - before.slots.length := by
    rw [← ha, ← hb, ← hadded, List.length_append, Nat.add_sub_cancel_left]
  have hall : ∀ scope ∈ added, scope = purpose.scope := by
    intro scope hs
    obtain ⟨place, hp⟩ := List.mem_iff_getElem?.mp hs
    refine h.scopes (before.scopes.length + place) scope (by omega) ?_
    rw [← hadded, List.getElem?_append_right (Nat.le_add_right _ _), Nat.add_sub_cancel_left, hp]
  rw [← hadded, List.eq_replicate_iff.mpr ⟨hlength, hall⟩]

end Arena.Serves

namespace Purpose

variable {registry : Registry} {purpose : Purpose registry} {α β γ : Type} {work : Resolving α}
  {next : α → Resolving β} {root : Option String} {name : String}

/-- Work that leaves only places that serve the purpose. -/
def upkeep (purpose : Purpose registry) : Regime where
  holds arena := purpose.ready arena ∧ arena.Serves purpose
  leads := Arena.Recalls
  fails _ _ := True
  refl := Arena.Recalls.refl
  trans := Arena.Recalls.trans
  fails_after _ _ := trivial

/-- What the work stands below is known, if it stands below anything. -/
def Rooted (purpose : Purpose registry) (root : Option String) (arena : Arena) : Prop :=
  ∀ name, root = some name → purpose.roots arena name

theorem rooted_none (arena : Arena) : purpose.Rooted none arena := fun _ hn => by cases hn

theorem Rooted.recalls {before after : Arena} (hr : before.Recalls after)
    (h : purpose.Rooted root before) : purpose.Rooted root after :=
  fun name hn => purpose.roots_kept hr (h name hn)

/-- Below a root the work leaves only places that serve the purpose. -/
abbrev Keeps (purpose : Purpose registry) (root : Option String) (work : Resolving α) : Prop :=
  purpose.upkeep.Runs (purpose.Rooted root) work fun _ _ => True

theorem keeps_pure (a : α) : purpose.Keeps root (pure a) := Regime.Runs.pure fun _ _ => trivial

theorem keeps_throw (error : ResolveError) : purpose.Keeps root (throw error : Resolving α) :=
  Regime.Runs.throw fun _ _ => trivial

theorem keeps_lift (result : Except ResolveError α) : purpose.Keeps root (liftM result) :=
  Regime.Runs.lift (fun _ _ _ _ => trivial) fun _ _ _ _ => trivial

/-- Work that stands below nothing may stand anywhere. -/
theorem keeps_of_none (h : purpose.Keeps none work) : purpose.Keeps root work :=
  h.weaken (fun arena _ => rooted_none arena) fun _ _ hq => hq

theorem keeps_bind (hw : purpose.Keeps root work) (hn : ∀ a, purpose.Keeps root (next a)) :
    purpose.Keeps root (work >>= next) :=
  (hw.kept Rooted.recalls).bind fun a => (hn a).weaken (fun _ hp => hp.2) fun _ _ hq => hq

theorem keeps_bind_yields {p : α → Prop} (hw : purpose.Keeps root work) (hy : work.Yields p)
    (hn : ∀ a, p a → purpose.Keeps root (next a)) : purpose.Keeps root (work >>= next) :=
  ((hw.kept Rooted.recalls).yields hy).bind fun a arena hh hp => hn a hp.2 arena hh hp.1.2

theorem keeps_get_bind {rest : Arena → Resolving β}
    (hr : ∀ arena, purpose.Keeps root (rest arena)) : purpose.Keeps root (get >>= rest) :=
  fun arena hh hp => ensures_get_bind (hr arena arena hh hp)

theorem keeps_mapM {each : γ → Resolving β} {items : List γ}
    (h : ∀ item ∈ items, purpose.Keeps root (each item)) :
    purpose.Keeps root (items.mapM each) :=
  (Regime.Runs.mapM (q := fun _ _ _ => True) items Rooted.recalls (fun _ hq => hq) h).weaken
    (fun _ hp => hp) fun _ _ _ => trivial

theorem keeps_foldlM {step : β → γ → Resolving β} {items : List γ}
    (h : ∀ item ∈ items, ∀ b, purpose.Keeps root (step b item)) (b : β) :
    purpose.Keeps root (items.foldlM step b) := by
  refine (Regime.Runs.foldlM (i := fun _ _ => purpose.Rooted root) items
    (fun done item rest hsplit b => ?_) b).weaken (fun _ hp => hp) fun _ _ _ => trivial
  have hitem : item ∈ items := hsplit ▸ List.mem_append_right done List.mem_cons_self
  exact ((h item hitem b).kept Rooted.recalls).weaken (fun _ hp => hp) fun _ _ hq => hq.2

theorem keeps_reserve {scope : List String} (hs : scope = purpose.scope) :
    purpose.Keeps root (reserve scope) := by
  subst hs
  intro arena hh _
  have hkept : arena.Recalls (arena.reserve purpose.scope).2 := Arena.Recalls.refl arena
  exact ⟨⟨purpose.ready_kept hkept rfl hh.1, hh.2.reserve⟩, hkept, trivial⟩

/-- A component that is noted can be looked up from then on. -/
theorem runs_remember (name : String) (id : ModelId) : purpose.upkeep.Runs (fun _ => True)
    (modify fun arena => arena.remember name id : Resolving Unit)
    fun _ after => Entries.has after.memo name = true := by
  intro arena hh _
  have hkept := arena.recalls_remember name id
  refine ⟨⟨purpose.ready_kept hkept rfl hh.1, hh.2.remember name id⟩, hkept, ?_⟩
  exact Entries.has_iff.mpr ⟨id, Entries.get?_set_self⟩

theorem keeps_remember (name : String) (id : ModelId) :
    purpose.Keeps root (modify fun arena => arena.remember name id : Resolving Unit) :=
  (runs_remember name id).weaken (fun _ _ => trivial) fun _ _ _ => trivial

theorem keeps_fill {model : Model} (hm : model.Below name) (id : ModelId) :
    purpose.Keeps (some name) (fill id model) := by
  intro arena hh hr
  have hkept : arena.Recalls (arena.fill id model) := Arena.Recalls.refl arena
  exact ⟨⟨purpose.ready_kept hkept rfl hh.1, hh.2.fill hm (hr name rfl) id⟩, hkept, trivial⟩

/-- A place is reserved, a model is built, and the model is put at the place. -/
theorem keeps_place {build : Resolving Model} (hb : purpose.Keeps (some name) build)
    (hy : build.Yields (Model.Below name)) (answer : ModelId → α) {scope : List String}
    (hs : scope = purpose.scope) :
    purpose.Keeps (some name) (do
      let id ← reserve scope
      let model ← build
      fill id model
      pure (answer id)) :=
  keeps_bind (keeps_reserve hs) fun id => keeps_bind_yields hb hy fun _ hm =>
    keeps_bind (keeps_fill hm id) fun _ => keeps_pure _

theorem keeps_push {model : Model} (hm : model.Below name) {scope : List String}
    (hs : scope = purpose.scope) : purpose.Keeps (some name) (push model scope) :=
  keeps_place (keeps_pure model) (Yields.pure hm) id hs

theorem keeps_freeForm {scope : List String} (hs : scope = purpose.scope) :
    purpose.Keeps (some name) (Resolving.freeForm scope) := by
  have hm : Model.freeForm.Below name := fun _ hc => by cases hc
  exact keeps_bind (keeps_push hm hs) fun _ => keeps_pure _

end Purpose

namespace Registry

variable {registry : Registry} {calls : Calls} {several : Resolving Model} {trail : Trail}
  {schema : Schema} {pos : Position}

theorem plainModel_below {model : Model} (h : registry.plainModel schema pos = .ok model) :
    model.Below pos.context.root := by
  unfold plainModel at h
  split at h
  next =>
    cases h
    rintro context ⟨⟩
    rfl
  next =>
    unfold buildEnum at h
    split at h
    next => cases h
    next => cases h
    next =>
      simp only at h
      split at h <;>
      · cases h
        rintro context ⟨⟩
        rfl
  next =>
    split at h
    next =>
      cases h
      rintro context ⟨⟩
    next =>
      split at h <;>
      · cases h
        rintro context ⟨⟩

/-- A schema comes to a model that is named after where the schema stands, if it is named. -/
theorem buildForm_below (hs : several.Yields (Model.Below pos.context.root)) (form : Form) :
    (registry.buildForm calls several trail schema pos form).Yields
      (Model.Below pos.context.root) := by
  have hobject : ∀ description properties additional,
      (Model.object ⟨pos.context, description, properties, additional⟩).Below pos.context.root := by
    rintro _ _ _ context ⟨⟩
    rfl
  have hfreeForm : Model.freeForm.Below pos.context.root := by
    rintro context ⟨⟩
  have hcollection : ∀ collection, (Model.collection collection).Below pos.context.root := by
    rintro _ context ⟨⟩
  cases form with
  | merged =>
    simp only [buildForm, buildAllOf]
    split
    next => exact Yields.throw
    next =>
      refine Yields.last fun merged => ?_
      split
      next => exact Yields.pure (hobject _ _ _)
      next => exact Yields.pure hfreeForm
  | object => exact Yields.last fun _ => Yields.pure (hobject _ _ _)
  | array =>
    simp only [buildForm, buildArray]
    cases schema.items <;> exact Yields.last fun _ => Yields.pure (hcollection _)
  | map value => exact Yields.last fun _ => Yields.pure (hcollection _)
  | union =>
    refine Yields.last fun cases => ?_
    split
    next => exact Yields.pure hfreeForm
    next =>
      refine Yields.pure ?_
      rintro context ⟨⟩
      rfl
  | several => exact hs
  | plain => exact Yields.lift fun _ => plainModel_below

theorem buildTypeUnion_below :
    (registry.buildTypeUnion calls trail schema pos).Yields (Model.Below pos.context.root) := by
  refine Yields.last fun cases => Yields.pure ?_
  rintro context ⟨⟩
  rfl

theorem buildSchema_below :
    (registry.buildSchema calls trail schema pos).Yields (Model.Below pos.context.root) := by
  rw [buildSchema_eq_buildForm]
  exact buildForm_below buildTypeUnion_below _

end Registry

namespace Purpose

variable {registry : Registry} {purpose : Purpose registry}

/-- Calls that keep to the purpose where they are told to. A reference needs no such place, as its
component has a place of its own. -/
structure Upheld (purpose : Purpose registry) (calls : Calls) : Prop where
  refer : ∀ trail path pos, purpose.Keeps none (calls.resolve trail (.ref path) pos)
  resolve : ∀ trail node pos, pos.scope = purpose.scope →
    purpose.Keeps (some pos.context.root) (calls.resolve trail node pos)
  build : ∀ trail schema pos, pos.scope = purpose.scope →
    purpose.Keeps (some pos.context.root) (calls.build trail schema pos) ∧
      (calls.build trail schema pos).Yields (Model.Below pos.context.root)
  merge : ∀ trail schema pointer pos merged, pos.scope = purpose.scope →
    purpose.Keeps (some pos.context.root) (calls.merge trail schema pointer pos merged)

variable {calls : Calls} {trail : Trail} {schema : Schema} {node : SchemaNode} {pos : Position}
  {name path pointer location reference : String} {merged : Merged}

section Step
variable (hc : purpose.Upheld calls)
include hc

/-- A component that is entered is made for itself, wherever it is referred to. -/
theorem componentId_keeps :
    purpose.Keeps none (registry.componentId calls trail name reference location) := by
  rw [Registry.componentId_eq]
  intro arena hh hr
  refine ensures_get_bind ?_
  cases hm : Entries.get? arena.memo name with
  | some id => exact keeps_pure id arena hh hr
  | none =>
    simp only
    split
    next => exact keeps_throw _ arena hh hr
    next hf =>
      split
      next => exact keeps_throw _ arena hh hr
      next =>
        cases hb : Entries.get? registry.schemas name with
        | none => exact keeps_throw _ arena hh hr
        | some body =>
          simp only [SchemaNode.unwrap_node]
          cases body.bare with
          | ref path =>
            exact keeps_bind (hc.refer _ _ _) (fun target =>
              keeps_bind (keeps_remember _ _) fun _ => keeps_pure _) arena hh hr
          | inline schema =>
            obtain ⟨hscope, hroot⟩ := purpose.entered hh.1 (Entries.has_iff.mpr ⟨body, hb⟩) hm
              (by simpa using hf)
            obtain ⟨hkeeps, hbelow⟩ := hc.build {} schema
              ⟨.named name, [], (body.unwrap (Section.schemas.pointer name)).pointer⟩ hscope.symm
            refine (keeps_reserve hscope.symm).bind (fun id => ?_) arena hh hr
            refine ((runs_remember name id).weaken (fun _ _ => trivial) fun _ _ hq => hq).bind
              fun _ => ?_
            -- From here on the component is noted, so that its own models may be named below it.
            refine (keeps_bind_yields hkeeps hbelow fun model hb => keeps_bind (keeps_fill hb id)
              fun _ => keeps_pure _).weaken (fun after hn root he => ?_) fun _ _ hq => hq
            exact Option.some.inj he ▸ hroot after hn

theorem resolveRef_keeps : purpose.Keeps none (registry.resolveRef calls trail path location) := by
  unfold Registry.resolveRef
  exact keeps_bind (keeps_lift _) fun name =>
    keeps_bind (componentId_keeps hc) fun id => keeps_pure _

variable (hs : pos.scope = purpose.scope)
include hs

theorem resolveProperty_keeps : purpose.Keeps (some pos.context.root)
    (Registry.resolveProperty calls trail pointer pos name node) := by
  unfold Registry.resolveProperty
  exact keeps_bind (hc.resolve _ _ ⟨(Site.property pos.context name).context, pos.scope, _⟩ hs)
    fun model => keeps_pure _

theorem buildObject_keeps : purpose.Keeps (some pos.context.root)
    (Registry.buildObject calls trail schema pos) := by
  unfold Registry.buildObject
  refine keeps_bind (keeps_mapM fun pair _ => ?_) fun properties => keeps_pure _
  exact keeps_bind (resolveProperty_keeps hc hs) fun property => keeps_pure _

theorem mergeUnfinished_keeps : purpose.Keeps (some pos.context.root)
    (registry.mergeUnfinished calls trail path location pos merged) := by
  rw [Registry.mergeUnfinished_eq]
  refine keeps_bind (keeps_lift _) fun (owner, body) => ?_
  simp only
  split
  next => exact keeps_throw _
  next =>
    split
    next => exact keeps_throw _
    next => exact hc.merge _ _ _ _ _ hs

theorem mergeComponent_keeps : purpose.Keeps (some pos.context.root)
    (registry.mergeComponent calls trail path location pos merged) := by
  unfold Registry.mergeComponent
  refine keeps_bind (keeps_of_none (resolveRef_keeps hc)) fun target => ?_
  refine keeps_get_bind fun arena => ?_
  split
  next => exact keeps_pure _
  next => exact keeps_pure _
  next => exact keeps_throw _
  next => exact mergeUnfinished_keeps hc hs

theorem mergeBranch_keeps (branch : SchemaNode × Nat) : purpose.Keeps (some pos.context.root)
    (registry.mergeBranch calls trail pointer pos merged branch) := by
  obtain ⟨node, index⟩ := branch
  unfold Registry.mergeBranch
  cases node with
  | ref path => exact mergeComponent_keeps hc hs
  | inline schema =>
    simp only
    split
    next => exact keeps_pure _
    next =>
      split
      next => exact hc.merge _ _ _ _ _ hs
      next => exact keeps_throw _

theorem mergeSchema_keeps : purpose.Keeps (some pos.context.root)
    (registry.mergeSchema calls trail schema pointer pos merged) := by
  unfold Registry.mergeSchema
  refine keeps_bind (keeps_foldlM (fun branch _ merged => ?_) merged) fun merged => ?_
  · exact mergeBranch_keeps hc hs branch
  · refine keeps_bind (keeps_foldlM (fun pair _ merged => ?_) _) fun _ => keeps_pure _
    exact keeps_bind (resolveProperty_keeps hc hs) fun property => keeps_pure _

theorem buildAllOf_keeps : purpose.Keeps (some pos.context.root)
    (registry.buildAllOf calls trail schema pos) := by
  unfold Registry.buildAllOf
  split
  next => exact keeps_throw _
  next =>
    refine keeps_bind (mergeSchema_keeps hc hs) fun merged => ?_
    split <;> exact keeps_pure _

theorem unionCases_keeps (branches : List (SchemaNode × Nat)) : ∀ cases : List Case,
    purpose.Keeps (some pos.context.root)
      (Registry.unionCases calls trail schema pos branches cases) := by
  induction branches with
  | nil => exact fun cases => keeps_pure cases
  | cons branch rest ih =>
    intro cases
    rw [Registry.unionCases]
    split
    next => exact ih cases
    next =>
      simp only
      exact keeps_bind (hc.resolve _ _ ⟨(Site.case pos.context _).context, pos.scope, _⟩ hs)
        fun model => ih _

theorem buildUnion_keeps : purpose.Keeps (some pos.context.root)
    (Registry.buildUnion calls trail schema pos) := by
  unfold Registry.buildUnion
  refine keeps_bind (unionCases_keeps hc hs _ []) fun cases => ?_
  split <;> exact keeps_pure _

theorem buildArray_keeps : purpose.Keeps (some pos.context.root)
    (Registry.buildArray calls trail schema pos) := by
  unfold Registry.buildArray
  cases schema.items with
  | none => exact keeps_bind (keeps_freeForm hs) fun element => keeps_pure _
  | some items =>
    exact keeps_bind (hc.resolve _ _ (pos.at (below pos.pointer "items")) hs)
      fun element => keeps_pure _

theorem buildForm_keeps {several : Resolving Model}
    (hseveral : purpose.Keeps (some pos.context.root) several) (form : Form) :
    purpose.Keeps (some pos.context.root)
      (registry.buildForm calls several trail schema pos form) := by
  cases form with
  | merged => exact buildAllOf_keeps hc hs
  | object => exact buildObject_keeps hc hs
  | array => exact buildArray_keeps hc hs
  | map value =>
    exact keeps_bind (hc.resolve _ _ (pos.at (below pos.pointer "additionalProperties")) hs)
      fun element => keeps_pure _
  | union => exact buildUnion_keeps hc hs
  | several => exact hseveral
  | plain => exact keeps_lift _

omit hs in
theorem typeCase_keeps (place : Position) (hs : place.scope = purpose.scope)
    (answer : ModelId → Case) (form : Form) :
    purpose.Keeps (some place.context.root) (do
      let id ← reserve place.scope
      let model ← registry.buildForm calls (pure .freeForm) trail schema place form
      fill id model
      pure (answer id)) := by
  have hfreeForm : Yields (pure .freeForm) (Model.Below place.context.root) :=
    Yields.pure fun _ hc => by cases hc
  exact keeps_place (buildForm_keeps hc hs (keeps_pure _) form)
    (Registry.buildForm_below hfreeForm form) answer hs

theorem buildTypeUnion_keeps : purpose.Keeps (some pos.context.root)
    (registry.buildTypeUnion calls trail schema pos) := by
  unfold Registry.buildTypeUnion Registry.typeCases
  simp only [Registry.classify_eq_buildForm]
  refine keeps_bind (keeps_mapM fun pair _ => ?_) fun cases => keeps_pure _
  exact typeCase_keeps hc ⟨(Site.case pos.context ("Case" ++ toString (pair.2 + 1))).context,
    pos.scope, below (below pos.pointer "type") (toString pair.2)⟩ hs _ _

theorem buildSchema_keeps : purpose.Keeps (some pos.context.root)
    (registry.buildSchema calls trail schema pos) := by
  rw [Registry.buildSchema_eq_buildForm]
  exact buildForm_keeps hc hs (buildTypeUnion_keeps hc hs) _

theorem resolveNode_keeps : purpose.Keeps (some pos.context.root)
    (registry.resolveNode calls trail node pos) := by
  unfold Registry.resolveNode
  simp only [SchemaNode.unwrap_node]
  cases node.bare with
  | ref path => exact keeps_of_none (resolveRef_keeps hc)
  | inline schema =>
    obtain ⟨hkeeps, hbelow⟩ := hc.build trail schema (pos.at (node.unwrap pos.pointer).pointer) hs
    exact keeps_place hkeeps hbelow _ hs

end Step

theorem resolveNode_refer_keeps (hc : purpose.Upheld calls) :
    purpose.Keeps none (registry.resolveNode calls trail (.ref path) pos) := by
  unfold Registry.resolveNode
  simp only [SchemaNode.unwrap_node, SchemaNode.bare_ref]
  exact resolveRef_keeps hc

/-- Calls nested to any depth keep to the purpose. -/
theorem callsWithin_upheld (purpose : Purpose registry) (depth : Nat) :
    purpose.Upheld (registry.callsWithin Registry.noCalls depth) := by
  induction depth with
  | zero =>
    rw [Registry.callsWithin_zero]
    exact ⟨fun _ _ _ => keeps_throw _, fun _ _ _ _ => keeps_throw _,
      fun _ _ _ _ => ⟨keeps_throw _, Yields.throw⟩, fun _ _ _ _ _ _ => keeps_throw _⟩
  | succ depth ih =>
    rw [Registry.callsWithin_succ]
    exact ⟨fun _ _ _ => resolveNode_refer_keeps ih, fun _ _ _ hs => resolveNode_keeps ih hs,
      fun _ _ _ hs => ⟨buildSchema_keeps ih hs, Registry.buildSchema_below⟩,
      fun _ _ _ _ _ hs => mergeSchema_keeps ih hs⟩

theorem component_keeps : purpose.Keeps none (registry.component name) :=
  componentId_keeps (callsWithin_upheld purpose _)

theorem resolve_keeps (pos : Position) (hs : pos.scope = purpose.scope) :
    purpose.Keeps (some pos.context.root) (registry.resolve node pos) :=
  (callsWithin_upheld purpose (registry.budget node.size)).resolve {} node pos hs

end Purpose

namespace Purpose

variable {around : Surroundings} {purpose : Purpose around.registry} {errand : Errand}
  {endpoint : Endpoint} {media : MediaType} {name : String}

section
variable (pos : Position) (hs : pos.scope = purpose.scope)
include hs

theorem optionalModel_keeps :
    purpose.Keeps (some pos.context.root) (around.optionalModel media pos) := by
  unfold Surroundings.optionalModel
  cases media.schema with
  | some node =>
    simp only [map_eq_pure_bind]
    exact keeps_bind (resolve_keeps pos hs) fun _ => keeps_pure _
  | none => exact keeps_pure _

theorem modelOrFreeForm_keeps :
    purpose.Keeps (some pos.context.root) (around.modelOrFreeForm media pos) := by
  unfold Surroundings.modelOrFreeForm
  cases media.schema with
  | some node => exact resolve_keeps pos hs
  | none => exact keeps_freeForm hs

theorem resolvePayload_keeps :
    purpose.Keeps (some pos.context.root) (around.resolvePayload name media pos) := by
  unfold Surroundings.resolvePayload
  split
  next => exact keeps_bind (modelOrFreeForm_keeps pos hs) fun _ => keeps_pure _
  next =>
    split
    next => exact keeps_bind (modelOrFreeForm_keeps pos hs) fun _ => keeps_pure _
    next =>
      split
      next => exact keeps_pure _
      next =>
        split
        next =>
          refine keeps_bind (optionalModel_keeps pos hs) fun model => ?_
          exact keeps_get_bind fun arena => keeps_pure _
        next => exact keeps_bind (optionalModel_keeps pos hs) fun _ => keeps_pure _

end

section
variable (hs : errand.scope = purpose.scope)
include hs

theorem resolveInput_keeps (listed : Surroundings.Listed) :
    purpose.Keeps (some errand.name) (around.resolveInput errand listed) := by
  obtain ⟨parameter, location⟩ := listed
  unfold Surroundings.resolveInput
  simp only
  cases parameter.valueSchema? with
  | some node =>
    simp only [pure_bind]
    exact keeps_bind (resolve_keeps
      ⟨(Site.parameter errand.name parameter.name).context, errand.scope, _⟩ hs)
      fun _ => keeps_pure _
  | none =>
    have htext : (Model.primitive (.string none)).Below errand.name := fun _ hc => by cases hc
    simp only [pure_bind]
    exact keeps_bind (keeps_push htext hs) fun _ => keeps_pure _

theorem resolveInputs_keeps :
    purpose.Keeps (some errand.name) (around.resolveInputs errand endpoint) := by
  unfold Surroundings.resolveInputs
  exact keeps_bind (keeps_lift _) fun listed =>
    keeps_mapM fun item _ => resolveInput_keeps hs item

theorem resolveBody_keeps (node : Referable RequestBody) :
    purpose.Keeps (some errand.name) (around.resolveBody errand node) := by
  unfold Surroundings.resolveBody
  refine keeps_bind (keeps_lift _) fun body => ?_
  refine keeps_bind (keeps_mapM fun content _ => ?_) fun _ => keeps_pure _
  exact keeps_bind (resolvePayload_keeps
    ⟨(Site.requestBody errand.name).context, errand.scope, _⟩ hs) fun _ => keeps_pure _

theorem resolveReturn_keeps (primary : Bool) (key : String) (node : Referable Response) :
    purpose.Keeps (some errand.name) (around.resolveReturn errand primary key node) := by
  unfold Surroundings.resolveReturn
  simp only
  cases Status.parse key with
  | none => exact keeps_throw _
  | some status =>
    refine keeps_bind (keeps_lift _) fun response => ?_
    cases Surroundings.chosenContent response.content with
    | none =>
      simp only [pure_bind]
      exact keeps_pure _
    | some chosen =>
      exact keeps_bind (optionalModel_keeps
        ⟨(Site.response errand.name status primary).context, errand.scope, _⟩ hs)
        fun _ => keeps_pure _

theorem resolveReturns_keeps (responses : Responses) :
    purpose.Keeps (some errand.name) (around.resolveReturns errand responses) := by
  unfold Surroundings.resolveReturns
  refine keeps_bind (keeps_mapM fun item _ => ?_) fun _ => keeps_pure _
  exact resolveReturn_keeps hs (item.2 == 0) item.1.1 item.1.2

end

/-- An operation hands its own name and scope down to all that is resolved for it. -/
theorem resolveRoute_keeps (hs : literalSegments endpoint.path = purpose.scope) :
    purpose.Keeps (some (operationName around.naming endpoint.method endpoint.path
      endpoint.operation)) (around.resolveRoute endpoint) := by
  unfold Surroundings.resolveRoute
  let errand : Errand := ⟨operationName around.naming endpoint.method endpoint.path
    endpoint.operation, literalSegments endpoint.path, endpoint.pointer⟩
  have hscope : errand.scope = purpose.scope := hs
  have hreturns : purpose.Keeps (some errand.name)
      (around.resolveReturns errand endpoint.operation.responses) := resolveReturns_keeps hscope _
  refine keeps_bind (resolveInputs_keeps hscope) fun input => ?_
  simp only
  cases endpoint.operation.requestBody with
  | some node =>
    exact keeps_bind (resolveBody_keeps hscope node) fun body =>
      keeps_bind hreturns fun _ => keeps_pure _
  | none =>
    simp only [pure_bind]
    exact keeps_bind hreturns fun _ => keeps_pure _

end Purpose

end ApiAtlas
