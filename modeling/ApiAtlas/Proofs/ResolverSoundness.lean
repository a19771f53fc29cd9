import ApiAtlas.Proofs.ArenaGrowth

namespace ApiAtlas

/-- A node is answered by a reference where a reference stands below its wrappers, and else by a
place. -/
def Answers (node : SchemaNode) : Resolved → Prop
  | .ref name _ => ∃ path, node.bare = .ref path ∧ Section.schemas.named? path = some name
  | .value _ => ∃ schema, node.bare = .inline schema

/-- Where a reference stands the answer is a reference to the component that it names. -/
theorem Answers.of_ref {node : SchemaNode} {path : String} {target : Resolved}
    (h : Answers node target) (bare : node.bare = .ref path) :
    ∃ name id, target = .ref name id ∧ Section.schemas.named? path = some name := by
  cases target with
  | value id =>
    obtain ⟨schema, hne⟩ := h
    simp [bare] at hne
  | ref name id =>
    obtain ⟨other, hp, hname⟩ := h
    cases bare.symm.trans hp
    exact ⟨name, id, rfl, hname⟩

/-- All that a model is made of is held. -/
def Model.Held (model : Model) (arena : Arena) : Prop := ∀ child ∈ model.children, arena.Holds child

/-- All that an object in the making is made of is held. -/
def Merged.Held (merged : Merged) (arena : Arena) : Prop :=
  ∀ pair ∈ merged.properties, arena.Holds pair.2.model

theorem Merged.held_insert {merged : Merged} {property : Property} {arena : Arena}
    (h : merged.Held arena) (hp : arena.Holds property.model) :
    (merged.insert property).Held arena := by
  intro pair hm
  rcases Entries.mem_set hm with he | hr
  · rw [he]
    exact hp
  · exact h pair hr

theorem Merged.held_finish {merged : Merged} {arena : Arena} (h : merged.Held arena) :
    ∀ property ∈ merged.finish, arena.Holds property.model := by
  intro property hp
  obtain ⟨pair, hm, rfl⟩ := List.mem_map.mp hp
  exact h pair hm

/-- Calls that keep to the regime of `growing`. -/
structure Calls.Steady (registry : Registry) (calls : Calls) : Prop where
  resolve : ∀ trail node pos, (growing registry).Runs (fun _ => True)
    (calls.resolve trail node pos) fun resolved after => after.Holds resolved ∧ Answers node resolved
  build : ∀ trail schema pos, (growing registry).Runs (fun _ => True)
    (calls.build trail schema pos) Model.Held
  merge : ∀ trail schema pointer pos merged, (growing registry).Runs merged.Held
    (calls.merge trail schema pointer pos merged) Merged.Held

namespace Registry

variable {registry : Registry} {calls : Calls} {trail : Trail} {schema : Schema}
  {node : SchemaNode} {pos : Position} {name path pointer location reference : String}
  {merged : Merged}

/-- A component that is another name. -/
theorem componentId_alias_steady {arena : Arena} {body : SchemaNode} (hc : calls.Steady registry)
    (hs : arena.Sound registry) (hb : Entries.get? registry.schemas name = some body)
    (hbare : body.bare = .ref path) (hf : name ∉ arena.failed) :
    (do
      let target ← calls.resolve { trail with aliases := trail.aliases ++ [name] } (.ref path) pos
      modify fun arena => arena.remember name target.id
      pure target.id : Resolving ModelId).Ensures arena
        (fun id after => after.Sound registry ∧ (growing registry).leads arena after ∧
          Entries.get? after.memo name = some id) arena.Grows := by
  refine Resolving.ensures_bind (hc.resolve _ _ _ arena hs trivial) ?_
  rintro target after ⟨ha, hl, hh, hanswer⟩
  obtain ⟨other, id, rfl, hname⟩ := hanswer.of_ref (SchemaNode.bare_ref path)
  have halias : Arena.AliasOf registry name other := ⟨body, path, hb, hbare, hname⟩
  -- A nested visit may have placed the name already, and then it has the very same place.
  obtain ⟨hsound, hgrows⟩ := ha.remember_alias halias hh (hl.1.failed ▸ hf)
  refine Resolving.ensures_modify_bind (Resolving.ensures_pure ⟨hsound, ?_, ?_⟩)
  · exact (growing registry).trans hl ⟨hgrows, Arena.filled_remember _ _ _⟩
  · exact Entries.get?_set_self

/-- A component with a body of its own. -/
theorem componentId_body_steady {arena : Arena} {body : SchemaNode} (hc : calls.Steady registry)
    (hs : arena.Sound registry) (hb : Entries.get? registry.schemas name = some body)
    (hbare : body.bare = .inline schema) (hm : Entries.get? arena.memo name = none)
    (hf : name ∉ arena.failed) :
    (do
      let id ← Resolving.reserve []
      modify fun arena => arena.remember name id
      let model ← calls.build {} schema pos
      Resolving.fill id model
      pure id : Resolving ModelId).Ensures arena
        (fun id after => after.Sound registry ∧ (growing registry).leads arena after ∧
          Entries.get? after.memo name = some id) arena.Grows := by
  refine Resolving.ensures_reserve_bind (Resolving.ensures_modify_bind ?_)
  have hr := Arena.grows_reserve arena []
  have hg : (arena.reserve []).2.Grows ((arena.reserve []).2.remember name arena.slots.length) :=
    Arena.grows_remember hm hf
  have hsound : ((arena.reserve []).2.remember name arena.slots.length).Sound registry :=
    (hs.reserve []).remember hm hf (Arena.lt_reserve arena []) fun target ha =>
      absurd ha (Arena.not_aliasOf hb hbare)
  refine Resolving.ensures_bind ((hc.build _ _ _ _ hsound trivial).weaken
    (fun _ _ h => h) fun after hl => (hr.trans hg).trans hl) ?_
  rintro model after ⟨ha, hl, hheld⟩
  obtain ⟨hfill, hgrows, hfilled, _⟩ := Arena.Sound.fill_reserved (hg.trans hl.1)
    ((Arena.filled_remember _ _ _).trans hl.1 hl.2) ha hheld
  refine Resolving.ensures_fill_bind (Resolving.ensures_pure ⟨hfill, ⟨hgrows, hfilled⟩, ?_⟩)
  exact hl.1.memo_get? Entries.get?_set_self

theorem componentId_steady (hc : calls.Steady registry) :
    (growing registry).Runs (fun _ => True)
      (registry.componentId calls trail name reference location)
      fun id after => Entries.get? after.memo name = some id := by
  intro arena hs _
  have hfail : arena.Grows arena := Arena.Grows.refl arena
  rw [componentId_eq]
  refine Resolving.ensures_get_bind ?_
  cases hm : Entries.get? arena.memo name with
  | some id => exact Resolving.ensures_pure ⟨hs, (growing registry).refl arena, hm⟩
  | none =>
    simp only
    split
    next => exact Resolving.ensures_throw hfail
    next hf =>
      have hf' : name ∉ arena.failed := by simpa using hf
      split
      next => exact Resolving.ensures_throw hfail
      next =>
        cases hb : Entries.get? registry.schemas name with
        | none => exact Resolving.ensures_throw hfail
        | some body =>
          simp only [SchemaNode.unwrap_node]
          cases hbare : body.bare with
          | ref path => exact componentId_alias_steady hc hs hb hbare hf'
          | inline schema => exact componentId_body_steady hc hs hb hbare hm hf'

theorem resolveRef_steady (hc : calls.Steady registry) :
    (growing registry).Runs (fun _ => True) (registry.resolveRef calls trail path location)
      fun resolved after => ∃ name id, resolved = .ref name id ∧
        Section.schemas.named? path = some name ∧ Entries.get? after.memo name = some id := by
  unfold resolveRef
  refine Regime.Runs.lift_bind (fun name hn => ?_) fun _ arena _ _ => Arena.Grows.refl arena
  refine (componentId_steady hc).bind fun id => Regime.Runs.pure fun arena hm => ?_
  exact ⟨name, id, rfl, Section.parseName_eq_ok_iff.mp hn, hm⟩

theorem resolveProperty_steady (hc : calls.Steady registry) :
    (growing registry).Runs (fun _ => True) (resolveProperty calls trail pointer pos name node)
      fun property after => property.name = name ∧ after.Holds property.model := by
  unfold resolveProperty
  exact (hc.resolve _ _ _).bind fun model => Regime.Runs.pure fun arena hm => ⟨rfl, hm.1⟩

theorem buildObject_steady (hc : calls.Steady registry) :
    (growing registry).Runs (fun _ => True) (buildObject calls trail schema pos) Model.Held := by
  unfold buildObject
  refine Regime.Runs.bind (Regime.Runs.mapM (q := fun _ property after =>
    after.Holds property.model) _ (fun _ h => h) (fun hl => hl.1.holds)
    fun pair _ => ?_) fun properties => ?_
  · exact (resolveProperty_steady hc).bind fun property =>
      Regime.Runs.pure fun arena hp => hp.2
  · refine Regime.Runs.pure fun arena hp child hchild => ?_
    obtain ⟨property, hm, rfl⟩ := List.mem_map.mp hchild
    obtain ⟨pair, _, hh⟩ := forall₂_of_mem_right hp hm
    exact hh

theorem mergeUnfinished_steady (hc : calls.Steady registry) :
    (growing registry).Runs merged.Held
      (registry.mergeUnfinished calls trail path location pos merged) Merged.Held := by
  rw [mergeUnfinished_eq]
  have hfail : ∀ arena : Arena, merged.Held arena → arena.Grows arena :=
    fun arena _ => Arena.Grows.refl arena
  refine Regime.Runs.lift_bind (fun written _ => ?_) fun _ arena _ => hfail arena
  simp only
  split
  next => exact Regime.Runs.throw hfail
  next =>
    split
    next => exact Regime.Runs.throw hfail
    next => exact hc.merge _ _ _ _ _

theorem Merged.held_foldl_insert {arena : Arena} (properties : List Property)
    (hp : ∀ property ∈ properties, arena.Holds property.model) :
    ∀ merged : Merged, merged.Held arena → (properties.foldl Merged.insert merged).Held arena := by
  induction properties with
  | nil => exact fun _ h => h
  | cons property rest ih =>
    intro merged h
    exact ih (fun other ho => hp other (List.mem_cons_of_mem _ ho)) _
      (Merged.held_insert h (hp property List.mem_cons_self))

theorem mergeComponent_steady (hc : calls.Steady registry) :
    (growing registry).Runs merged.Held
      (registry.mergeComponent calls trail path location pos merged) Merged.Held := by
  unfold mergeComponent
  have hkept : ∀ {before after : Arena}, (growing registry).leads before after →
      merged.Held before → merged.Held after :=
    fun hl hm pair hp => hl.1.holds (hm pair hp)
  refine Regime.Runs.bind (((resolveRef_steady hc).frame hkept).weaken
    (fun _ h => ⟨trivial, h⟩) fun _ _ h => h.2) fun target => ?_
  intro arena hs hm
  refine Resolving.ensures_get_bind ?_
  cases ht : arena.model? target.id with
  | none => exact mergeUnfinished_steady hc arena hs hm
  | some model =>
    have hlinked := hs.linked _ _ ht
    cases model with
    | object object =>
      refine Resolving.ensures_pure ⟨hs, (growing registry).refl arena, ?_⟩
      refine Merged.held_foldl_insert _ (fun property hp => ?_) _ hm
      exact hlinked _ (List.mem_map_of_mem hp)
    | freeForm => exact Resolving.ensures_pure ⟨hs, (growing registry).refl arena, hm⟩
    | primitive _ => exact Resolving.ensures_throw (Arena.Grows.refl arena)
    | binary => exact Resolving.ensures_throw (Arena.Grows.refl arena)
    | collection _ => exact Resolving.ensures_throw (Arena.Grows.refl arena)
    | union _ => exact Resolving.ensures_throw (Arena.Grows.refl arena)
    | enum _ => exact Resolving.ensures_throw (Arena.Grows.refl arena)

theorem mergeBranch_steady (hc : calls.Steady registry) (branch : SchemaNode × Nat) :
    (growing registry).Runs merged.Held
      (registry.mergeBranch calls trail pointer pos merged branch) Merged.Held := by
  unfold mergeBranch
  obtain ⟨node, index⟩ := branch
  cases node with
  | ref path => exact mergeComponent_steady hc
  | inline schema =>
    simp only
    split
    next => exact Regime.Runs.pure fun _ h => h
    next =>
      split
      next => exact hc.merge _ _ _ _ _
      next => exact Regime.Runs.throw fun arena _ => Arena.Grows.refl arena

theorem insertProperty_steady (hc : calls.Steady registry) :
    (growing registry).Runs merged.Held
      (do
        let property ← resolveProperty calls trail pointer pos name node
        pure (merged.insert property)) Merged.Held := by
  have hkept : ∀ {before after : Arena}, (growing registry).leads before after →
      merged.Held before → merged.Held after :=
    fun hl hm pair hp => hl.1.holds (hm pair hp)
  refine (((resolveProperty_steady hc).frame hkept).weaken (fun _ h => ⟨trivial, h⟩)
    fun _ _ h => h).bind fun property => ?_
  exact Regime.Runs.pure fun arena h => Merged.held_insert h.2 h.1.2

theorem mergeSchema_steady (hc : calls.Steady registry) :
    (growing registry).Runs merged.Held
      (registry.mergeSchema calls trail schema pointer pos merged) Merged.Held := by
  unfold mergeSchema
  refine Regime.Runs.bind (Regime.Runs.foldlM (i := fun _ => Merged.Held) _
    (fun _ branch _ _ merged => mergeBranch_steady hc branch) merged) fun merged => ?_
  have hproperties : ∀ start : Merged, (growing registry).Runs start.Held
      (schema.properties.foldlM (fun merged pair => do
        let property ← resolveProperty calls trail pointer pos pair.1 pair.2
        pure (merged.insert property)) start) Merged.Held :=
    Regime.Runs.foldlM (i := fun _ => Merged.Held) _ fun _ pair _ _ merged => insertProperty_steady hc
  have hstart := hproperties { merged with shaped := merged.shaped || declaresObject schema }
  exact Regime.Runs.bind (m := Merged.Held) hstart fun merged => Regime.Runs.pure fun _ h => h

theorem buildAllOf_steady (hc : calls.Steady registry) :
    (growing registry).Runs (fun _ => True) (registry.buildAllOf calls trail schema pos)
      Model.Held := by
  unfold buildAllOf
  split
  next => exact Regime.Runs.throw fun arena _ => Arena.Grows.refl arena
  next =>
    refine ((mergeSchema_steady hc).weaken (fun _ _ pair hp => ?_) fun _ _ h => h).bind
      fun merged => ?_
    · simp at hp
    · split
      next =>
        refine Regime.Runs.pure fun arena h child hchild => ?_
        obtain ⟨property, hp, rfl⟩ := List.mem_map.mp hchild
        exact Merged.held_finish h property hp
      next => exact Regime.Runs.pure fun arena _ child hchild => by simp [Model.children] at hchild

theorem unionCases_steady (hc : calls.Steady registry) (branches : List (SchemaNode × Nat)) :
    ∀ cases : List Case, (growing registry).Runs
      (fun arena => ∀ case ∈ cases, arena.Holds case.model)
      (unionCases calls trail schema pos branches cases)
      fun cases after => ∀ case ∈ cases, after.Holds case.model := by
  induction branches with
  | nil => exact fun cases => Regime.Runs.pure fun _ h => h
  | cons branch rest ih =>
    obtain ⟨node, index⟩ := branch
    intro cases
    rw [unionCases]
    split
    next => exact ih cases
    next =>
      refine (((hc.resolve _ _ _).frame fun hl hh case hm => hl.1.holds (hh case hm)).weaken
        (fun _ h => ⟨trivial, h⟩) fun _ _ h => h).bind fun model => ?_
      refine (ih _).weaken (fun arena h case hm => ?_) fun _ _ h => h
      rcases List.mem_append.mp hm with ho | hn
      · exact h.2 case ho
      · rw [List.mem_singleton.mp hn]
        exact h.1.1

theorem buildUnion_steady (hc : calls.Steady registry) :
    (growing registry).Runs (fun _ => True) (buildUnion calls trail schema pos) Model.Held := by
  unfold buildUnion
  refine ((unionCases_steady hc _ []).weaken (fun _ _ => by simp) fun _ _ h => h).bind
    fun cases => ?_
  split
  next => exact Regime.Runs.pure fun arena _ child hchild => by simp [Model.children] at hchild
  next =>
    refine Regime.Runs.pure fun arena h child hchild => ?_
    obtain ⟨case, hm, rfl⟩ := List.mem_map.mp hchild
    exact h case hm

theorem push_steady {model : Model} (scope : List String) (hm : model.children = []) :
    (growing registry).Runs (fun _ => True) (Resolving.push model scope)
      fun id after => after.Settled id := by
  intro arena hs _
  obtain ⟨hsound, hgrows, hfilled, hsettled⟩ := hs.push scope hm
  exact ⟨hsound, ⟨hgrows, hfilled⟩, hsettled⟩

theorem freeForm_steady (scope : List String) :
    (growing registry).Runs (fun _ => True) (Resolving.freeForm scope)
      fun resolved after => after.Holds resolved :=
  (push_steady scope rfl).bind fun _ => Regime.Runs.pure fun _ h => h

theorem buildArray_steady (hc : calls.Steady registry) :
    (growing registry).Runs (fun _ => True) (buildArray calls trail schema pos) Model.Held := by
  unfold buildArray
  have helement : ∀ element : Resolved, (growing registry).Runs (fun arena => arena.Holds element)
      (pure (.collection (if schema.uniqueItems.getD false then .set element else .list element)))
      Model.Held := by
    intro element
    refine Regime.Runs.pure fun arena hh child hchild => ?_
    have he : child = element := by
      split at hchild <;> exact List.mem_singleton.mp hchild
    exact he ▸ hh
  cases schema.items with
  | none => exact (freeForm_steady pos.scope).bind helement
  | some items =>
    exact ((hc.resolve _ _ _).weaken (fun _ h => h) fun _ _ h => h.1).bind helement

theorem buildMap_steady {value : SchemaNode} (hc : calls.Steady registry) :
    (growing registry).Runs (fun _ => True) (buildMap calls trail value pos) Model.Held := by
  unfold buildMap
  refine (hc.resolve _ _ _).bind fun element => Regime.Runs.pure fun arena hh child hchild => ?_
  exact (List.mem_singleton.mp hchild) ▸ hh.1

theorem buildForm_steady (hc : calls.Steady registry) {several : Resolving Model}
    (hs : (growing registry).Runs (fun _ => True) several Model.Held) (form : Form) :
    (growing registry).Runs (fun _ => True)
      (registry.buildForm calls several trail schema pos form) Model.Held := by
  cases form with
  | merged => exact buildAllOf_steady hc
  | object => exact buildObject_steady hc
  | array => exact buildArray_steady hc
  | map value => exact buildMap_steady hc
  | union => exact buildUnion_steady hc
  | several => exact hs
  | plain =>
    refine Regime.Runs.lift (fun model arena hm _ child hchild => ?_) fun _ arena _ _ =>
      Arena.Grows.refl arena
    rw [plainModel_children hm] at hchild
    simp at hchild

/-- A place is reserved, a model is built, and the model is put at the place. -/
theorem place_steady {α : Type} {build : Resolving Model} {answer : ModelId → α}
    (hb : (growing registry).Runs (fun _ => True) build Model.Held) (scope : List String) :
    (growing registry).Runs (fun _ => True)
      (do
        let id ← Resolving.reserve scope
        let model ← build
        Resolving.fill id model
        pure (answer id))
      fun a after => ∃ id, a = answer id ∧ after.Settled id := by
  intro arena hs _
  refine Resolving.ensures_reserve_bind (Resolving.ensures_bind
    ((hb _ (hs.reserve scope) trivial).weaken (fun _ _ h => h) fun after hl =>
      (Arena.grows_reserve arena scope).trans hl) ?_)
  rintro model after ⟨ha, hl, hheld⟩
  obtain ⟨hfill, hgrows, hfilled, hsettled⟩ := Arena.Sound.fill_reserved hl.1 hl.2 ha hheld
  exact Resolving.ensures_fill_bind (Resolving.ensures_pure
    ⟨hfill, ⟨hgrows, hfilled⟩, arena.slots.length, rfl, hsettled⟩)

theorem buildTypeUnion_steady (hc : calls.Steady registry) :
    (growing registry).Runs (fun _ => True) (registry.buildTypeUnion calls trail schema pos)
      Model.Held := by
  unfold buildTypeUnion typeCases
  refine Regime.Runs.bind (Regime.Runs.mapM (q := fun _ (case : Case) after =>
    after.Holds case.model) _ (fun _ h => h) (fun hl => hl.1.holds) fun pair _ => ?_)
    fun cases => ?_
  · obtain ⟨type, index⟩ := pair
    simp only [classify_eq_buildForm]
    refine (place_steady (buildForm_steady hc (Regime.Runs.pure fun _ _ child hchild => ?_) _)
      pos.scope).weaken (fun _ h => h) ?_
    · simp [Model.children] at hchild
    · rintro case after ⟨id, rfl, hsettled⟩
      exact hsettled
  · refine Regime.Runs.pure fun arena h child hchild => ?_
    obtain ⟨case, hm, rfl⟩ := List.mem_map.mp hchild
    obtain ⟨pair, _, hh⟩ := forall₂_of_mem_right h hm
    exact hh

theorem buildSchema_steady (hc : calls.Steady registry) :
    (growing registry).Runs (fun _ => True) (registry.buildSchema calls trail schema pos)
      Model.Held := by
  rw [buildSchema_eq_buildForm]
  exact buildForm_steady hc (buildTypeUnion_steady hc) _

theorem resolveNode_steady (hc : calls.Steady registry) :
    (growing registry).Runs (fun _ => True) (registry.resolveNode calls trail node pos)
      fun resolved after => after.Holds resolved ∧ Answers node resolved := by
  unfold resolveNode
  simp only [SchemaNode.unwrap_node]
  cases hbare : node.bare with
  | ref path =>
    refine (resolveRef_steady hc).weaken (fun _ h => h) ?_
    rintro resolved after ⟨name, id, rfl, hn, hm⟩
    exact ⟨hm, path, hbare, hn⟩
  | inline schema =>
    refine (place_steady (hc.build _ _ _) pos.scope).weaken (fun _ h => h) ?_
    rintro resolved after ⟨id, rfl, hsettled⟩
    exact ⟨hsettled, schema, hbare⟩

theorem step_steady (hc : calls.Steady registry) : (registry.step calls).Steady registry :=
  ⟨fun _ _ _ => resolveNode_steady hc, fun _ _ _ => buildSchema_steady hc,
    fun _ _ _ _ _ => mergeSchema_steady hc⟩

/-- Calls nested to any depth keep to the regime when those at the floor do. -/
theorem callsWithin_steady {floor : Calls} (hf : floor.Steady registry) (depth : Nat) :
    (registry.callsWithin floor depth).Steady registry := by
  induction depth with
  | zero =>
    rw [callsWithin_zero]
    exact hf
  | succ depth ih =>
    rw [callsWithin_succ]
    exact step_steady ih

theorem noCalls_steady : noCalls.Steady registry :=
  ⟨fun _ _ _ => Regime.Runs.throw fun arena _ => Arena.Grows.refl arena,
    fun _ _ _ => Regime.Runs.throw fun arena _ => Arena.Grows.refl arena,
    fun _ _ _ _ _ => Regime.Runs.throw fun arena _ => Arena.Grows.refl arena⟩

theorem resolve_steady :
    (growing registry).Runs (fun _ => True) (registry.resolve node pos)
      fun resolved after => after.Holds resolved ∧ Answers node resolved :=
  (callsWithin_steady noCalls_steady (registry.budget node.size)).resolve {} node pos

theorem component_steady :
    (growing registry).Runs (fun _ => True) (registry.component name)
      fun id after => Entries.get? after.memo name = some id :=
  componentId_steady (callsWithin_steady noCalls_steady (registry.budget 1))

end Registry

end ApiAtlas
