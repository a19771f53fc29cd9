import ApiAtlas.Proofs.ResolverSoundness
import ApiAtlas.Proofs.RestoredStacks

namespace ApiAtlas

namespace Arena

variable {arena before after : Arena} {id : Nat} {model : Model} {name target : String}
  {scope : List String} {registry : Registry}

/-- What is true of an arena whatever the models in it are, and wherever work in it broke off. -/
structure Orderly (registry : Registry) (arena : Arena) : Prop where
  aligned : arena.scopes.length = arena.slots.length
  aliased : ∀ name id target, Entries.get? arena.memo name = some id →
    AliasOf registry name target → Entries.get? arena.memo target = some id

theorem Orderly.empty (registry : Registry) : Orderly registry {} :=
  ⟨rfl, fun _ _ _ h => by simp at h⟩

theorem Orderly.reserve (h : arena.Orderly registry) (scope : List String) :
    (arena.reserve scope).2.Orderly registry :=
  ⟨by simp [Arena.reserve, h.aligned], h.aliased⟩

theorem Orderly.fill (h : arena.Orderly registry) (id : ModelId) (model : Model) :
    (arena.fill id model).Orderly registry :=
  ⟨by simp [Arena.fill, h.aligned], h.aliased⟩

theorem Orderly.fail (h : arena.Orderly registry) (name : String) :
    ({ arena with failed := arena.failed ++ [name] } : Arena).Orderly registry :=
  ⟨h.aligned, h.aliased⟩

theorem Orderly.remember (h : arena.Orderly registry) (hn : Entries.get? arena.memo name = none)
    (hf : name ∉ arena.failed)
    (ha : ∀ target, AliasOf registry name target → Entries.get? arena.memo target = some id) :
    (arena.remember name id).Orderly registry := by
  have hg : arena.Grows (arena.remember name id) := grows_remember hn hf
  refine ⟨h.aligned, fun other place target ho hao => ?_⟩
  rcases cases_of_get?_remember ho with ⟨rfl, rfl⟩ | hold
  · exact hg.memo_get? (ha target hao)
  · exact hg.memo_get? (h.aliased other place target hold hao)

/-- Another name is noted with the place of the name that it stands for. A nested visit may have
noted it already, and then with the very same place. -/
theorem Orderly.remember_alias (h : arena.Orderly registry) (ha : AliasOf registry name target)
    (ht : Entries.get? arena.memo target = some id) (hf : name ∉ arena.failed) :
    (arena.remember name id).Orderly registry ∧ arena.Grows (arena.remember name id) := by
  cases hn : Entries.get? arena.memo name with
  | none =>
    refine ⟨h.remember hn hf fun other ho => ?_, grows_remember hn hf⟩
    rw [ho.unique ha]
    exact ht
  | some place =>
    have hp := h.aliased name place target hn ha
    rw [ht] at hp
    cases Option.some.inj hp
    rw [remember_of_get? hn]
    exact ⟨h, Grows.refl arena⟩

/-- An orderly arena comes of an orderly one by adding to it. -/
def Adds (registry : Registry) (before after : Arena) : Prop :=
  before.Grows after ∧ (before.Orderly registry → after.Orderly registry)

theorem Adds.refl (registry : Registry) (arena : Arena) : arena.Adds registry arena :=
  ⟨Grows.refl arena, id⟩

theorem Adds.trans {first second third : Arena} (h : first.Adds registry second)
    (h' : second.Adds registry third) : first.Adds registry third :=
  ⟨h.1.trans h'.1, h'.2 ∘ h.2⟩

/-- What was added can be cut off again. -/
theorem Adds.rollback (h : before.Adds registry after) (ho : before.Orderly registry) :
    after.rollback before.checkpoint = before :=
  h.1.rollback ho.aligned

theorem adds_reserve (arena : Arena) (scope : List String) :
    arena.Adds registry (arena.reserve scope).2 :=
  ⟨grows_reserve arena scope, fun h => h.reserve scope⟩

/-- A place is reserved, work adds to the arena, and a model is put there. -/
theorem Adds.fill_reserved (h : (arena.reserve scope).2.Adds registry after) (model : Model) :
    arena.Adds registry (after.fill arena.slots.length model) :=
  ⟨h.1.fill_reserved, fun ho => (h.2 (ho.reserve scope)).fill _ _⟩

end Arena

/-- Work adds to the arena, whether it comes to a result or fails. -/
def appending (registry : Registry) : Regime where
  holds := Arena.Orderly registry
  leads := Arena.Adds registry
  fails := Arena.Adds registry
  refl := Arena.Adds.refl registry
  trans := Arena.Adds.trans
  fails_after := Arena.Adds.trans

/-- A node that leads to a reference is answered by a component that is noted. -/
def Noted (node : SchemaNode) (resolved : Resolved) (after : Arena) : Prop :=
  ∀ path, node.bare = .ref path → ∃ name id, resolved = .ref name id ∧
    Section.schemas.named? path = some name ∧ Entries.get? after.memo name = some id

/-- Work that only adds to the arena. -/
abbrev Registry.Appends {α : Type} (registry : Registry) (work : Resolving α) : Prop :=
  (appending registry).Runs (fun _ => True) work fun _ _ => True

/-- Calls that only add to the arena. -/
structure Calls.Appending (registry : Registry) (calls : Calls) : Prop where
  resolve : ∀ trail node pos, (appending registry).Runs (fun _ => True)
    (calls.resolve trail node pos) (Noted node)
  build : ∀ trail schema pos, registry.Appends (calls.build trail schema pos)
  merge : ∀ trail schema pointer pos merged,
    registry.Appends (calls.merge trail schema pointer pos merged)

namespace Registry

section
variable {registry : Registry} {α β γ : Type} {work : Resolving α} {next : α → Resolving β}

theorem appends_of_runs {q : α → Arena → Prop}
    (h : (appending registry).Runs (fun _ => True) work q) : registry.Appends work :=
  h.weaken (fun _ h => h) fun _ _ _ => trivial

theorem appends_pure (a : α) : registry.Appends (pure a) := Regime.Runs.pure fun _ _ => trivial

theorem appends_throw (error : ResolveError) : registry.Appends (throw error : Resolving α) :=
  Regime.Runs.throw fun arena _ => Arena.Adds.refl registry arena

theorem appends_lift (result : Except ResolveError α) : registry.Appends (liftM result) :=
  Regime.Runs.lift (fun _ _ _ _ => trivial) fun _ arena _ _ => Arena.Adds.refl registry arena

theorem appends_bind (hw : registry.Appends work) (hn : ∀ a, registry.Appends (next a)) :
    registry.Appends (work >>= next) :=
  Regime.Runs.bind hw hn

theorem appends_get_bind {rest : Arena → Resolving β} (hr : ∀ arena, registry.Appends (rest arena)) :
    registry.Appends (get >>= rest) :=
  fun arena hh _ => Resolving.ensures_get_bind (hr arena arena hh trivial)

theorem appends_mapM {each : γ → Resolving α} (items : List γ)
    (he : ∀ item, registry.Appends (each item)) : registry.Appends (items.mapM each) :=
  Regime.Runs.mapM_true fun item _ => he item

theorem appends_foldlM {step : α → γ → Resolving α} (items : List γ)
    (hs : ∀ a item, registry.Appends (step a item)) (a : α) :
    registry.Appends (items.foldlM step a) :=
  Regime.Runs.foldlM_true (fun item _ a => hs a item) a

/-- A place is reserved, a model is built, and the model is put at the place. -/
theorem appends_place {build : Resolving Model} (hb : registry.Appends build)
    (answer : ModelId → α) (scope : List String) :
    registry.Appends (do
      let id ← Resolving.reserve scope
      let model ← build
      Resolving.fill id model
      pure (answer id)) := by
  intro arena hs _
  refine Resolving.ensures_reserve_bind (Resolving.ensures_bind
    ((hb _ (hs.reserve scope) trivial).weaken (fun _ _ h => h) fun after hl =>
      (Arena.adds_reserve arena scope).trans hl) ?_)
  rintro model after ⟨ha, hl, _⟩
  exact Resolving.ensures_fill_bind (Resolving.ensures_pure
    ⟨ha.fill _ _, hl.fill_reserved model, trivial⟩)

theorem appends_push (model : Model) (scope : List String) :
    registry.Appends (Resolving.push model scope) :=
  appends_place (appends_pure model) id scope

theorem appends_freeForm (scope : List String) : registry.Appends (Resolving.freeForm scope) :=
  appends_bind (appends_push .freeForm scope) fun id => appends_pure (Resolved.value id)

end

variable {registry : Registry} {calls : Calls} {trail : Trail} {schema : Schema}
  {node : SchemaNode} {pos : Position} {name path pointer location reference : String}
  {merged : Merged}

/-- A component that is another name. -/
theorem componentId_alias_adds {arena : Arena} {body : SchemaNode} (hc : calls.Appending registry)
    (hs : arena.Orderly registry) (hb : Entries.get? registry.schemas name = some body)
    (hbare : body.bare = .ref path) (hf : name ∉ arena.failed) :
    (do
      let target ← calls.resolve { trail with aliases := trail.aliases ++ [name] } (.ref path) pos
      modify fun arena => arena.remember name target.id
      pure target.id : Resolving ModelId).Ensures arena
        (fun id after => after.Orderly registry ∧ arena.Adds registry after ∧
          Entries.get? after.memo name = some id) (arena.Adds registry) := by
  refine Resolving.ensures_bind (hc.resolve _ _ _ arena hs trivial) ?_
  rintro target after ⟨ha, hl, hnoted⟩
  obtain ⟨other, id, rfl, hother, hid⟩ := hnoted path (SchemaNode.bare_ref path)
  obtain ⟨hsound, hgrows⟩ :=
    ha.remember_alias ⟨body, path, hb, hbare, hother⟩ hid (hl.1.failed ▸ hf)
  refine Resolving.ensures_modify_bind (Resolving.ensures_pure ⟨hsound, ?_, ?_⟩)
  · exact hl.trans ⟨hgrows, fun _ => hsound⟩
  · exact Entries.get?_set_self

/-- A component with a body of its own. -/
theorem componentId_body_adds {arena : Arena} {body : SchemaNode} (hc : calls.Appending registry)
    (hs : arena.Orderly registry) (hb : Entries.get? registry.schemas name = some body)
    (hbare : body.bare = .inline schema) (hm : Entries.get? arena.memo name = none)
    (hf : name ∉ arena.failed) :
    (do
      let id ← Resolving.reserve []
      modify fun arena => arena.remember name id
      let model ← calls.build {} schema pos
      Resolving.fill id model
      pure id : Resolving ModelId).Ensures arena
        (fun id after => after.Orderly registry ∧ arena.Adds registry after ∧
          Entries.get? after.memo name = some id) (arena.Adds registry) := by
  refine Resolving.ensures_reserve_bind (Resolving.ensures_modify_bind ?_)
  have horderly : ((arena.reserve []).2.remember name arena.slots.length).Orderly registry :=
    (hs.reserve []).remember hm hf fun target ha => absurd ha (Arena.not_aliasOf hb hbare)
  have hnoted : (arena.reserve []).2.Adds registry
      ((arena.reserve []).2.remember name arena.slots.length) :=
    ⟨Arena.grows_remember hm hf, fun _ => horderly⟩
  -- The name stays noted where the body fails: the unit that asked for it is rolled back.
  refine Resolving.ensures_bind ((hc.build _ _ _ _ horderly trivial).weaken
    (fun _ _ h => h) fun after hl => ((Arena.adds_reserve arena []).trans hnoted).trans hl) ?_
  rintro model after ⟨ha, hl, _⟩
  refine Resolving.ensures_fill_bind (Resolving.ensures_pure ⟨ha.fill _ _, ?_, ?_⟩)
  · exact (hnoted.trans hl).fill_reserved model
  · exact hl.1.memo_get? Entries.get?_set_self

theorem componentId_adds (hc : calls.Appending registry) :
    (appending registry).Runs (fun _ => True)
      (registry.componentId calls trail name reference location)
      fun id after => Entries.get? after.memo name = some id := by
  intro arena hs _
  have hsame : arena.Adds registry arena := Arena.Adds.refl registry arena
  rw [componentId_eq]
  refine Resolving.ensures_get_bind ?_
  cases hm : Entries.get? arena.memo name with
  | some id => exact Resolving.ensures_pure ⟨hs, hsame, hm⟩
  | none =>
    simp only
    split
    next => exact Resolving.ensures_throw hsame
    next hf =>
      have hf' : name ∉ arena.failed := by simpa using hf
      split
      next => exact Resolving.ensures_throw hsame
      next =>
        cases hb : Entries.get? registry.schemas name with
        | none => exact Resolving.ensures_throw hsame
        | some body =>
          simp only [SchemaNode.unwrap_node]
          cases hbare : body.bare with
          | ref path => exact componentId_alias_adds hc hs hb hbare hf'
          | inline schema => exact componentId_body_adds hc hs hb hbare hm hf'

theorem resolveRef_adds (hc : calls.Appending registry) :
    (appending registry).Runs (fun _ => True) (registry.resolveRef calls trail path location)
      fun resolved after => ∃ name id, resolved = .ref name id ∧
        Section.schemas.named? path = some name ∧ Entries.get? after.memo name = some id := by
  unfold resolveRef
  refine Regime.Runs.lift_bind (fun name hn => ?_) fun _ arena _ _ => Arena.Adds.refl registry arena
  refine (componentId_adds hc).bind fun id => Regime.Runs.pure fun arena hm => ?_
  exact ⟨name, id, rfl, Section.parseName_eq_ok_iff.mp hn, hm⟩

theorem resolveProperty_appends (hc : calls.Appending registry) :
    registry.Appends (resolveProperty calls trail pointer pos name node) :=
  appends_bind (appends_of_runs (hc.resolve _ _ _)) fun _ => appends_pure _

theorem buildObject_appends (hc : calls.Appending registry) :
    registry.Appends (buildObject calls trail schema pos) := by
  refine appends_bind (appends_mapM _ fun pair => ?_) fun _ => appends_pure _
  exact appends_bind (resolveProperty_appends hc) fun _ => appends_pure _

theorem mergeUnfinished_appends (hc : calls.Appending registry) :
    registry.Appends (registry.mergeUnfinished calls trail path location pos merged) := by
  rw [mergeUnfinished_eq]
  refine appends_bind (appends_lift _) fun written => ?_
  simp only
  split
  next => exact appends_throw _
  next =>
    split
    next => exact appends_throw _
    next => exact hc.merge _ _ _ _ _

theorem mergeComponent_appends (hc : calls.Appending registry) :
    registry.Appends (registry.mergeComponent calls trail path location pos merged) := by
  unfold mergeComponent
  refine appends_bind (appends_of_runs (resolveRef_adds hc)) fun target => ?_
  refine appends_get_bind fun arena => ?_
  split
  next => exact appends_pure _
  next => exact appends_pure _
  next => exact appends_throw _
  next => exact mergeUnfinished_appends hc

theorem mergeBranch_appends (hc : calls.Appending registry) (branch : SchemaNode × Nat) :
    registry.Appends (registry.mergeBranch calls trail pointer pos merged branch) := by
  unfold mergeBranch
  obtain ⟨node, index⟩ := branch
  cases node with
  | ref path => exact mergeComponent_appends hc
  | inline schema =>
    simp only
    split
    next => exact appends_pure _
    next =>
      split
      next => exact hc.merge _ _ _ _ _
      next => exact appends_throw _

theorem mergeSchema_appends (hc : calls.Appending registry) :
    registry.Appends (registry.mergeSchema calls trail schema pointer pos merged) := by
  unfold mergeSchema
  refine appends_bind (appends_foldlM _ (fun _ branch => mergeBranch_appends hc branch) _)
    fun merged => ?_
  refine appends_bind (appends_foldlM _ (fun merged pair => ?_) _) fun _ => appends_pure _
  exact appends_bind (resolveProperty_appends hc) fun _ => appends_pure _

theorem buildAllOf_appends (hc : calls.Appending registry) :
    registry.Appends (registry.buildAllOf calls trail schema pos) := by
  unfold buildAllOf
  split
  next => exact appends_throw _
  next =>
    refine appends_bind (mergeSchema_appends hc) fun merged => ?_
    split
    next => exact appends_pure _
    next => exact appends_pure _

theorem unionCases_appends (hc : calls.Appending registry) (branches : List (SchemaNode × Nat)) :
    ∀ cases : List Case, registry.Appends (unionCases calls trail schema pos branches cases) := by
  induction branches with
  | nil => exact fun cases => appends_pure cases
  | cons branch rest ih =>
    intro cases
    rw [unionCases]
    split
    next => exact ih cases
    next => exact appends_bind (appends_of_runs (hc.resolve _ _ _)) fun model => ih _

theorem buildUnion_appends (hc : calls.Appending registry) :
    registry.Appends (buildUnion calls trail schema pos) := by
  unfold buildUnion
  refine appends_bind (unionCases_appends hc _ []) fun cases => ?_
  split
  next => exact appends_pure _
  next => exact appends_pure _

theorem buildArray_appends (hc : calls.Appending registry) :
    registry.Appends (buildArray calls trail schema pos) := by
  unfold buildArray
  cases schema.items with
  | none => exact appends_bind (appends_freeForm pos.scope) fun _ => appends_pure _
  | some items => exact appends_bind (appends_of_runs (hc.resolve _ _ _)) fun _ => appends_pure _

theorem buildForm_appends (hc : calls.Appending registry) {several : Resolving Model}
    (hs : registry.Appends several) (form : Form) :
    registry.Appends (registry.buildForm calls several trail schema pos form) := by
  cases form with
  | merged => exact buildAllOf_appends hc
  | object => exact buildObject_appends hc
  | array => exact buildArray_appends hc
  | map value => exact appends_bind (appends_of_runs (hc.resolve _ _ _)) fun _ => appends_pure _
  | union => exact buildUnion_appends hc
  | several => exact hs
  | plain => exact appends_lift _

theorem buildTypeUnion_appends (hc : calls.Appending registry) :
    registry.Appends (registry.buildTypeUnion calls trail schema pos) := by
  unfold buildTypeUnion typeCases
  refine appends_bind (appends_mapM _ fun pair => ?_) fun _ => appends_pure _
  obtain ⟨type, index⟩ := pair
  simp only [classify_eq_buildForm]
  exact appends_place (buildForm_appends hc (appends_pure _) _) _ pos.scope

theorem buildSchema_appends (hc : calls.Appending registry) :
    registry.Appends (registry.buildSchema calls trail schema pos) := by
  rw [buildSchema_eq_buildForm]
  exact buildForm_appends hc (buildTypeUnion_appends hc) _

theorem resolveNode_adds (hc : calls.Appending registry) :
    (appending registry).Runs (fun _ => True) (registry.resolveNode calls trail node pos)
      (Noted node) := by
  unfold resolveNode
  simp only [SchemaNode.unwrap_node]
  cases hbare : node.bare with
  | ref path =>
    refine (resolveRef_adds hc).weaken (fun _ h => h) fun resolved after hnoted other ho => ?_
    cases hbare.symm.trans ho
    exact hnoted
  | inline schema =>
    refine (appends_place (hc.build _ _ _) _ pos.scope).weaken (fun _ h => h) ?_
    intro _ _ _ other ho
    cases hbare.symm.trans ho

/-- Calls nested to any depth only add to the arena. -/
theorem callsWithin_appending (depth : Nat) :
    (registry.callsWithin noCalls depth).Appending registry := by
  induction depth with
  | zero =>
    rw [callsWithin_zero]
    exact ⟨fun _ _ _ => Regime.Runs.throw fun arena _ => Arena.Adds.refl registry arena,
      fun _ _ _ => appends_throw _, fun _ _ _ _ _ => appends_throw _⟩
  | succ depth ih =>
    refine ⟨fun trail node pos => ?_, fun trail schema pos => ?_,
      fun trail schema pointer pos merged => ?_⟩
    · simp only [callsWithin, resolveWithin]
      exact resolveNode_adds ih
    · simp only [callsWithin, buildWithin]
      exact buildSchema_appends ih
    · simp only [callsWithin, mergeWithin]
      exact mergeSchema_appends ih

theorem resolve_appends : registry.Appends (registry.resolve node pos) :=
  appends_of_runs ((callsWithin_appending (registry.budget node.size)).resolve {} node pos)

theorem component_appends : registry.Appends (registry.component name) :=
  appends_of_runs (componentId_adds (callsWithin_appending (registry.budget 1)))

end Registry

/-- What a resolver is asked for from outside, once it has its components or before. -/
inductive Request where
  | resolve (node : SchemaNode) (pos : Position)
  | freeForm (scope : List String)
  | push (model : Model) (scope : List String)

/-- A step of a resolver's use. -/
inductive Step where
  | components
  | request (request : Request)

namespace Registry

/-- The work that answers a request. -/
def work (registry : Registry) : Request → Resolving Resolved
  | .resolve node pos => registry.resolve node pos
  | .freeForm scope => Resolving.freeForm scope
  | .push model scope => do
    let id ← Resolving.push model scope
    pure (.value id)

/-- The arena after a step; what a failed request added is cut off. -/
def perform (registry : Registry) (arena : Arena) : Step → Arena
  | .components => (registry.resolveComponents arena).2
  | .request request => (Resolving.attempt (registry.work request) arena).2

/-- The arena after some steps of a new resolver. -/
def reached (registry : Registry) (steps : List Step) : Arena := steps.foldl registry.perform {}

/-- The arena after a request, of which a failure is either undone or left as it is. -/
def carryOn (registry : Registry) (arena : Arena) : Request × Bool → Arena
  | (request, true) => (Resolving.attempt (registry.work request) arena).2
  | (request, false) => ((registry.work request).outcome arena).2

variable {registry : Registry} {arena : Arena} {α : Type} {work : Resolving α}

theorem work_appends (request : Request) : registry.Appends (registry.work request) := by
  cases request with
  | resolve node pos => exact resolve_appends
  | freeForm scope => exact appends_freeForm scope
  | push model scope => exact appends_bind (appends_push model scope) fun id => appends_pure _

/-- Where work breaks off or ends, the arena is orderly and has only grown. -/
theorem Appends.outcome (hw : registry.Appends work) (h : arena.Orderly registry) :
    (work.outcome arena).2.Orderly registry ∧ arena.Adds registry (work.outcome arena).2 := by
  have hr := hw arena h trivial
  unfold Resolving.Ensures at hr
  split at hr
  next ho => rw [ho]; exact ⟨hr.1, hr.2.1⟩
  next ho => rw [ho]; exact ⟨hr.2 h, hr⟩

theorem Appends.rollback (hw : registry.Appends work) (h : arena.Orderly registry) :
    (work.outcome arena).2.rollback arena.checkpoint = arena :=
  (hw.outcome h).2.rollback h

/-- A failed unit of work leaves no trace. -/
theorem Appends.attempt (hw : registry.Appends work) (h : arena.Orderly registry) :
    (Resolving.attempt work arena).2.Orderly registry ∧
      arena.Adds registry (Resolving.attempt work arena).2 := by
  rw [Resolving.attempt_eq]
  split
  next ho =>
    have := hw.outcome h
    rw [ho] at this
    exact this
  next ho =>
    have := hw.rollback h
    rw [ho] at this
    rw [this]
    exact ⟨h, Arena.Adds.refl registry arena⟩

theorem orderly_resolveNames (names : List String) :
    ∀ {arena : Arena}, arena.Orderly registry →
      (registry.resolveNames names arena).2.Orderly registry := by
  induction names with
  | nil => exact fun h => h
  | cons name rest ih =>
    intro arena h
    have hw : registry.Appends (registry.component name) := component_appends
    have ha := hw.attempt h
    rw [resolveNames]
    split
    next => exact ih h
    next =>
      split
      next ho =>
        rw [ho] at ha
        exact ih ha.1
      next ho =>
        rw [ho] at ha
        exact ih (ha.1.fail name)

theorem orderly_perform (h : arena.Orderly registry) (step : Step) :
    (registry.perform arena step).Orderly registry := by
  cases step with
  | components => exact orderly_resolveNames _ h
  | request request => exact ((work_appends request).attempt h).1

theorem orderly_reached (steps : List Step) : (registry.reached steps).Orderly registry :=
  List.foldlRecOn steps registry.perform (Arena.Orderly.empty registry)
    fun _ h step _ => orderly_perform h step

theorem adds_carryOn (h : arena.Orderly registry) (later : Request × Bool) :
    (registry.carryOn arena later).Orderly registry ∧
      arena.Adds registry (registry.carryOn arena later) := by
  obtain ⟨request, undone⟩ := later
  cases undone with
  | true => exact (work_appends request).attempt h
  | false => exact (work_appends request).outcome h

theorem adds_foldl_carryOn (later : List (Request × Bool)) :
    ∀ {arena : Arena}, arena.Orderly registry →
      (later.foldl registry.carryOn arena).Orderly registry ∧
        arena.Adds registry (later.foldl registry.carryOn arena) := by
  induction later with
  | nil => exact fun h => ⟨h, Arena.Adds.refl registry _⟩
  | cons first rest ih =>
    intro arena h
    obtain ⟨ho, ha⟩ := adds_carryOn h first
    obtain ⟨hlast, hrest⟩ := ih ho
    exact ⟨hlast, ha.trans hrest⟩

/-- The work that answers a request, by a resolver with stacks. -/
def workStacked (registry : Registry) : Request → Keeping Trail Resolved
  | .resolve node pos => registry.resolveStacked node pos
  | .freeForm scope => Resolving.freeForm scope
  | .push model scope => do
    let id ← Resolving.push model scope
    pure (.value id)

/-- The resolver after a request; what a failed request added is cut off. -/
def attemptStacked (registry : Registry) (resolver : Resolver) (request : Request) : Resolver :=
  match (registry.workStacked request).outcome resolver with
  | (.ok _, after) => after
  | (.error _, after) => after.rollback resolver.checkpoint

/-- The resolver after a step; what a failed request added is cut off. -/
def performStacked (registry : Registry) (resolver : Resolver) : Step → Resolver
  | .components => (registry.resolveComponentsStacked resolver).2
  | .request request => registry.attemptStacked resolver request

/-- A new resolver after some steps. -/
def reachedStacked (registry : Registry) (steps : List Step) : Resolver :=
  steps.foldl registry.performStacked ⟨{}, {}⟩

/-- The resolver after a request, of which a failure is either undone or left as it is. -/
def carryOnStacked (registry : Registry) (resolver : Resolver) : Request × Bool → Resolver
  | (request, true) => registry.attemptStacked resolver request
  | (request, false) => ((registry.workStacked request).outcome resolver).2

theorem workStacked_restores (registry : Registry) (request : Request) :
    (registry.workStacked request).Restores {} (registry.work request) := by
  cases request with
  | resolve node pos => exact registry.resolveStacked_restores node pos
  | freeForm scope => exact fun _ => rfl
  | push model scope => exact fun _ => rfl

theorem attemptStacked_eq (registry : Registry) (arena : Arena) (request : Request) :
    registry.attemptStacked ⟨arena, {}⟩ request =
      ⟨(Resolving.attempt (registry.work request) arena).2, {}⟩ := by
  rw [attemptStacked, registry.workStacked_restores request arena, Resolving.attempt_eq]
  rcases Resolving.outcome (registry.work request) arena with ⟨result, after⟩
  cases result <;> rfl

/-- A step of a resolver with empty stacks does to its arena what it does without stacks, and the
stacks are empty again after it. -/
theorem performStacked_eq (registry : Registry) (arena : Arena) (step : Step) :
    registry.performStacked ⟨arena, {}⟩ step = ⟨registry.perform arena step, {}⟩ := by
  cases step with
  | components => rw [performStacked, resolveComponentsStacked, resolveNamesStacked_eq]; rfl
  | request request => exact registry.attemptStacked_eq arena request

theorem carryOnStacked_eq (registry : Registry) (arena : Arena) (later : Request × Bool) :
    registry.carryOnStacked ⟨arena, {}⟩ later = ⟨registry.carryOn arena later, {}⟩ := by
  obtain ⟨request, undone⟩ := later
  cases undone with
  | true => exact registry.attemptStacked_eq arena request
  | false => rw [carryOnStacked, registry.workStacked_restores request arena]; rfl

theorem foldl_performStacked (steps : List Step) : ∀ arena : Arena,
    steps.foldl registry.performStacked ⟨arena, {}⟩ = ⟨steps.foldl registry.perform arena, {}⟩ := by
  induction steps with
  | nil => exact fun _ => rfl
  | cons step rest ih =>
    intro arena
    rw [List.foldl_cons, List.foldl_cons, performStacked_eq, ih]

theorem foldl_carryOnStacked (later : List (Request × Bool)) : ∀ arena : Arena,
    later.foldl registry.carryOnStacked ⟨arena, {}⟩ = ⟨later.foldl registry.carryOn arena, {}⟩ := by
  induction later with
  | nil => exact fun _ => rfl
  | cons first rest ih =>
    intro arena
    rw [List.foldl_cons, List.foldl_cons, carryOnStacked_eq, ih]

/-- A resolver that some steps have led to is given back, in every field, by cutting off what any
further requests added to its arena, whether these succeeded, failed and were undone, or failed and
were left as they broke off: both stacks are empty whenever the resolver rests, and no request
touches what is older than it. Where requests were left as they broke off, the next one can be
undone all the same. -/
theorem rollback_exact (registry : Registry) (before : List Step) (later : List (Request × Bool)) :
    let resolver := registry.reachedStacked before
    let last := later.foldl registry.carryOnStacked resolver
    resolver.kept = ⟨[], []⟩ ∧ last.kept = ⟨[], []⟩ ∧
      last.rollback resolver.checkpoint = resolver ∧
      ∀ request, ((registry.workStacked request).outcome last).2.rollback last.checkpoint = last := by
  intro resolver last
  let arena := registry.reached before
  let final := later.foldl registry.carryOn arena
  have hresolver : resolver = ⟨arena, {}⟩ := foldl_performStacked before {}
  have hlast : last = ⟨final, {}⟩ :=
    (congrArg (later.foldl registry.carryOnStacked) hresolver).trans
      (foldl_carryOnStacked later arena)
  have harena : arena.Orderly registry := orderly_reached before
  obtain ⟨hfinal, hadds⟩ := adds_foldl_carryOn later harena
  rw [hlast, hresolver]
  refine ⟨rfl, rfl, ?_, fun request => ?_⟩
  · exact Beside.rollback_mk (hadds.rollback harena) _
  · rw [registry.workStacked_restores request final]
    exact Beside.rollback_mk ((work_appends request).rollback hfinal) _

/-- Components that are other names of each other, and one that merges its own text. -/
def tangled : Registry :=
  ⟨[("A", .ref "#/components/schemas/B"), ("B", .ref "#/components/schemas/A"),
    ("Loop", .inline {
      allOf := [.ref "#/components/schemas/Loop", .inline { properties := [("id", .inline {})] }] })],
    []⟩

/-- The requests for the first and the last of them. -/
def tangledRequests : Request × Request :=
  (.resolve (.ref "#/components/schemas/A") ⟨.named "Place", [], "#/place"⟩,
    .resolve (.ref "#/components/schemas/Loop") ⟨.named "Place", [], "#/place"⟩)

/-- A request that breaks off while two names are on a stack, and one that breaks off while the text
of a component is being merged: both leave the stacks empty, and the second one is undone though the
first one was left as it broke off. -/
theorem rollback_exact_tangled :
    let first := (tangled.workStacked tangledRequests.1).outcome ⟨{}, {}⟩
    let second := (tangled.workStacked tangledRequests.2).outcome first.2
    first.1 = .error (.circularRef ["A", "B", "A"] "#/components/schemas/B") ∧
      second.1 = .error (.circularRef ["Loop", "Loop"] "#/components/schemas/Loop/allOf/0") ∧
      second.2.arena.slots.length = 1 ∧ first.2.kept = ⟨[], []⟩ ∧ second.2.kept = ⟨[], []⟩ ∧
      second.2.rollback first.2.checkpoint = first.2 := by
  have hfirst : (tangled.workStacked tangledRequests.1).outcome ⟨{}, {}⟩ =
      (.error (.circularRef ["A", "B", "A"] "#/components/schemas/B"), ⟨{}, {}⟩) := by
    decide +kernel
  have hsecond : ((tangled.workStacked tangledRequests.2).outcome ⟨{}, {}⟩).1 =
      .error (.circularRef ["Loop", "Loop"] "#/components/schemas/Loop/allOf/0") := by
    decide +kernel
  have hplaces : ((tangled.workStacked tangledRequests.2).outcome ⟨{}, {}⟩).2.arena.slots.length =
      1 := by
    decide +kernel
  obtain ⟨-, hempty, -, hundone⟩ := rollback_exact tangled [] [(tangledRequests.1, false)]
  obtain ⟨-, hempty', -⟩ :=
    rollback_exact tangled [] [(tangledRequests.1, false), (tangledRequests.2, false)]
  simp only [List.foldl_cons, List.foldl_nil, reachedStacked, carryOnStacked] at hempty hempty' hundone
  simp only [hfirst] at hempty hempty' hundone ⊢
  exact ⟨trivial, hsecond, hplaces, trivial, hempty', hundone tangledRequests.2⟩

end Registry

end ApiAtlas
