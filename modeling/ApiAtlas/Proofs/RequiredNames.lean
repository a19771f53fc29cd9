import ApiAtlas.Proofs.OrderIndependence
import ApiAtlas.Proofs.ToldObjects

namespace ApiAtlas

/-- Work keeps true what an arena says of finished components, also when it fails. -/
def telling (registry : Registry) : Regime where
  holds arena := arena.Sound registry ∧ arena.Told registry.lookup
  leads before after := before.Grows after ∧ before.Filled after ∧
    before.Closes registry.lookup after
  fails _ _ := True
  refl := (deciding registry True).refl
  trans := (deciding registry True).trans
  fails_after _ h := h

/-- Work that keeps to the regime of `growing` and tells the truth keeps to that of `telling`. -/
theorem runs_telling {registry : Registry} {α : Type} {work : Resolving α} {p : Arena → Prop}
    {q r : α → Arena → Prop} (hs : (growing registry).Runs (fun _ => True) work q)
    (ht : ∀ arena, arena.Sound registry → arena.Told registry.lookup → p arena →
      work.Ensures arena (fun a after => after.Told registry.lookup ∧
        arena.Closes registry.lookup after ∧ r a after) fun _ => True) :
    (telling registry).Runs p work fun a after => q a after ∧ r a after := by
  intro arena hh hp
  refine ((hs arena hh.1 trivial).and (ht arena hh.1 hh.2 hp)).weaken ?_ fun _ _ => trivial
  rintro a after ⟨⟨hsound, hl, hq⟩, htold, hcloses, hpost⟩
  exact ⟨⟨hsound, htold⟩, ⟨hl.1, hl.2, hcloses⟩, hq, hpost⟩

namespace Lookup

variable {lookup : Lookup} {schema : Schema} {name path target owner : String}

/-- A name that is listed in a node and kept when the node is merged into an object. -/
def Gathers (lookup : Lookup) (node : SchemaNode) (name : String) : Prop :=
  lookup.Keeps true node name ∨ lookup.Keeps false node name ∧ lookup.Declares node name

/-- What is kept of a schema is listed in it, or kept of a branch that is more than an annotation. -/
theorem gathers_compatible (hc : schema.isObjectCompatible = true) (h : lookup.Gathers (.inline schema) name) :
    name ∈ schema.required ∨
      ∃ branch ∈ schema.allOf, branch.isAnnotation = false ∧ lookup.Gathers branch name := by
  rcases h with h | ⟨h, hd⟩
  · cases h with
    | own _ listed => exact .inl listed
    | part _ mem real inner => exact .inr ⟨_, mem, real, .inl inner⟩
    | extended _ mem declared inner => exact .inr ⟨_, mem, rfl, .inr ⟨inner, declared⟩⟩
  · cases h with
    | own _ listed => exact .inl listed
    | part _ mem real inner => exact .inr ⟨_, mem, real, .inl inner⟩
    | extended _ mem declared inner => exact .inr ⟨_, mem, rfl, .inr ⟨inner, declared⟩⟩
    | wrapped peels inner =>
      have hinner := (declares_wrapper peels).mp hd
      have mem : _ ∈ schema.allOf := mem_of_wrapper hc peels
      refine .inr ⟨_, mem, ?_, .inr ⟨inner, hinner⟩⟩
      by_contra hplain
      obtain ⟨plain, he, ha⟩ := SchemaNode.of_isAnnotation (by simpa using hplain)
      exact annotation_declares_nothing ha (he ▸ hinner)

theorem gathers_ref (h : lookup.Gathers (.ref path) name) :
    lookup.Keeps false (.ref path) name ∧ lookup.Declares (.ref path) name := by
  rcases h with h | h
  · cases h
  · exact h

theorem WrittenAs.gathers (hw : lookup.WrittenAs target owner schema)
    (named : Section.schemas.named? path = some target) (h : lookup.Gathers (.ref path) name) :
    lookup.Gathers (.inline schema) name := by
  obtain ⟨hkeeps, hdeclares⟩ := gathers_ref h
  exact .inr ⟨(hw.keeps named).mpr hkeeps, (hw.finds named).mpr hdeclares⟩

/-- A schema without branches that is no wrapper keeps its own list alone. -/
theorem keeps_own (hpeel : schema.peel? = none) (hall : schema.allOf = [])
    (h : lookup.Keeps false (.inline schema) name) : name ∈ schema.required := by
  cases h with
  | own _ listed => exact listed
  | part _ mem => simp [hall] at mem
  | extended _ mem => simp [hall] at mem
  | wrapped peels => simp [hpeel] at peels

end Lookup

/-- Merging a node takes over what it declares, and of what it lists all that is sure. -/
def Merged.Absorbs (lookup : Lookup) (node : SchemaNode) (merged result : Merged) : Prop :=
  result.Formed ∧
    merged.Takes (lookup.Declares node) (lookup.Lists node) (lookup.Gathers node) result

/-- Calls whose results tell what their nodes declare. -/
structure Calls.Tells (registry : Registry) (calls : Calls) : Prop where
  steady : calls.Steady registry
  resolve : ∀ trail node pos, (telling registry).Runs (fun _ => True) (calls.resolve trail node pos)
    fun resolved after => ∀ model, after.model? resolved.id = some model →
      model.Tells registry.lookup node
  build : ∀ trail schema pos, (telling registry).Runs (fun _ => True)
    (calls.build trail schema pos)
    fun model _ => schema.peel? = none → model.Tells registry.lookup (.inline schema)
  merge : ∀ trail schema pointer pos merged, schema.isObjectCompatible = true →
    (telling registry).Runs (fun _ => merged.Formed) (calls.merge trail schema pointer pos merged)
      fun result _ => merged.Absorbs registry.lookup (.inline schema) result

namespace Registry

variable {registry : Registry} {calls : Calls} {trail : Trail} {schema : Schema}
  {node body : SchemaNode} {pos : Position} {name path pointer location reference : String}
  {merged : Merged} {arena : Arena}

/-- A component that is another name. -/
theorem componentId_alias_tells (hc : calls.Tells registry)
    (hs : arena.Sound registry) (ht : arena.Told registry.lookup)
    (hb : Entries.get? registry.schemas name = some body) (hbare : body.bare = .ref path)
    (hf : name ∉ arena.failed) :
    (do
      let target ← calls.resolve { trail with aliases := trail.aliases ++ [name] } (.ref path) pos
      modify fun arena => arena.remember name target.id
      pure target.id : Resolving ModelId).Ensures arena
        (fun _ after => after.Told registry.lookup ∧ arena.Closes registry.lookup after ∧ True)
        fun _ => True := by
  refine Resolving.ensures_bind (((hc.resolve _ (.ref path) pos arena ⟨hs, ht⟩ trivial).and
    (hc.steady.resolve _ (.ref path) pos arena hs trivial)).weaken (fun _ _ h => h)
      fun _ _ => trivial) ?_
  rintro target after ⟨⟨htold, hl, _⟩, hsound, _, hholds, hanswers⟩
  obtain ⟨other, id, rfl, hname⟩ := hanswers.of_ref (SchemaNode.bare_ref path)
  have halias : registry.lookup.Alias name other := ⟨body, path, hb, hbare, hname⟩
  have hgrows := (hsound.remember_alias halias hholds (hl.1.failed ▸ hf)).2
  refine Resolving.ensures_modify_bind (Resolving.ensures_pure ⟨?_, ?_, trivial⟩)
  · exact htold.2.remember_alias hgrows halias hholds
  · exact hl.2.2.trans hgrows (Arena.closes_remember_alias halias)

/-- A component with a schema of its own is noted with a new place. -/
theorem telling_enter (hh : (telling registry).holds arena)
    (howns : registry.lookup.Own name schema) (hm : Entries.get? arena.memo name = none)
    (hf : name ∉ arena.failed) :
    (telling registry).holds ((arena.reserve []).2.remember name arena.slots.length) := by
  have hlt : arena.slots.length < (arena.reserve []).2.slots.length :=
    Arena.lt_reserve arena []
  have hnone : (arena.reserve []).2.model? arena.slots.length = none :=
    Arena.model?_reserve_self arena []
  exact ⟨(hh.1.reserve []).remember hm hf hlt fun target ha => absurd ha howns.not_alias,
    (hh.2.reserve []).remember_own hm hf howns hnone⟩

/-- A component with a body of its own. -/
theorem componentId_body_tells (hc : calls.Tells registry)
    (hs : arena.Sound registry) (ht : arena.Told registry.lookup)
    (hb : Entries.get? registry.schemas name = some body) (hbare : body.bare = .inline schema)
    (hm : Entries.get? arena.memo name = none) (hf : name ∉ arena.failed) :
    (do
      let id ← Resolving.reserve []
      modify fun arena => arena.remember name id
      let model ← calls.build {} schema pos
      Resolving.fill id model
      pure id : Resolving ModelId).Ensures arena
        (fun _ after => after.Told registry.lookup ∧ arena.Closes registry.lookup after ∧ True)
        fun _ => True := by
  have howns : registry.lookup.Own name schema := ⟨body, hb, hbare⟩
  have henter := telling_enter ⟨hs, ht⟩ howns hm hf
  refine Resolving.ensures_reserve_bind (Resolving.ensures_modify_bind (Resolving.ensures_bind
    (hc.build {} schema pos _ henter trivial) ?_))
  rintro model after ⟨hafter, hl, htells⟩
  refine Resolving.ensures_fill_bind (Resolving.ensures_pure
    ⟨hafter.2.fill (hl.1.reserved rfl).1 fun owner own hown hplace => ?_,
      hl.2.2.built hl.1, trivial⟩)
  cases hl.2.2.owner_eq hl.1 hs hown hplace
  cases hown.unique howns
  exact htells (SchemaNode.peel?_of_bare hbare)

theorem componentId_tells (hc : calls.Tells registry) :
    (telling registry).Runs (fun _ => True)
      (registry.componentId calls trail name reference location)
      fun id after => Entries.get? after.memo name = some id := by
  refine (runs_telling (componentId_steady hc.steady) (r := fun _ _ => True)
    fun arena hs ht _ => ?_).weaken (fun _ h => h) fun _ _ h => h.1
  have hfail : True := trivial
  rw [componentId_eq]
  refine Resolving.ensures_get_bind ?_
  cases hm : Entries.get? arena.memo name with
  | some id => exact Resolving.ensures_pure ⟨ht, Arena.Closes.refl arena, trivial⟩
  | none =>
    simp only
    split
    next => exact Resolving.ensures_throw hfail
    next hf =>
      have hf' : name ∉ arena.failed := by simpa using hf
      split
      next => exact Resolving.ensures_throw hfail
      next =>
        cases hb : Entries.get? registry.schemas name with
        | none => exact Resolving.ensures_throw hfail
        | some body =>
          simp only [SchemaNode.unwrap_node]
          cases hbare : body.bare with
          | ref path => exact componentId_alias_tells hc hs ht hb hbare hf'
          | inline schema => exact componentId_body_tells hc hs ht hb hbare hm hf'

theorem resolveRef_tells (hc : calls.Tells registry) :
    (telling registry).Runs (fun _ => True) (registry.resolveRef calls trail path location)
      fun resolved after => ∃ name, Section.schemas.named? path = some name ∧
        Entries.get? after.memo name = some resolved.id := by
  unfold resolveRef
  refine Regime.Runs.lift_bind (fun name hn => ?_) fun _ _ _ _ => trivial
  refine (componentId_tells hc).bind fun id => Regime.Runs.pure fun arena hm => ?_
  exact ⟨name, Section.parseName_eq_ok_iff.mp hn, hm⟩

/-- A place is reserved, a model is built, and the model is put at the place. -/
theorem place_tells {α : Type} {build : Resolving Model} {answer : ModelId → α}
    {tells : Model → Prop}
    (hb : (telling registry).Runs (fun _ => True) build fun model _ => tells model)
    (hs : (growing registry).Runs (fun _ => True) build Model.Held) (scope : List String) :
    (telling registry).Runs (fun _ => True)
      (do
        let id ← Resolving.reserve scope
        let model ← build
        Resolving.fill id model
        pure (answer id))
      fun a after => ∃ id model, a = answer id ∧ after.model? id = some model ∧ tells model := by
  refine (runs_telling (place_steady hs scope) (r := fun a after =>
    ∃ id model, a = answer id ∧ after.model? id = some model ∧ tells model)
      fun arena hsound htold _ => ?_).weaken (fun _ h => h) fun _ _ h => h.2
  refine Resolving.ensures_reserve_bind (Resolving.ensures_bind
    (hb _ ⟨hsound.reserve scope, htold.reserve scope⟩ trivial) ?_)
  rintro model after ⟨hafter, hl, htells⟩
  have hid : arena.slots.length < after.slots.length := (hl.1.reserved rfl).1
  refine Resolving.ensures_fill_bind (Resolving.ensures_pure ⟨hafter.2.fill hid ?_, ?_,
    arena.slots.length, model, rfl, ?_, htells⟩)
  · exact fun owner own hown hplace => absurd hplace (hl.2.2.vacant hl.1 hsound hown)
  · exact fun owner own id hown hplace hmodel => (hl.2.2.of_fill hid hown hplace hmodel).2
  · rw [Arena.model?_fill hid, if_pos rfl]

theorem push_tells {model : Model} (hm : model.children = []) (scope : List String) :
    (telling registry).Runs (fun _ => True) (Resolving.push model scope) fun _ _ => True := by
  refine (runs_telling (push_steady scope hm) (r := fun _ _ => True)
    fun arena hsound htold _ => ?_).weaken (fun _ h => h) fun _ _ _ => trivial
  have hlt : arena.slots.length < (arena.reserve scope).2.slots.length :=
    Arena.lt_reserve arena scope
  have hfill : ((arena.reserve scope).2.fill arena.slots.length model).Told registry.lookup :=
    (htold.reserve scope).fill hlt fun owner own _ hplace =>
      absurd (hsound.lt_of_get? hplace) (Nat.lt_irrefl _)
  exact ⟨hfill, fun _ _ _ _ hplace _ => hplace, trivial⟩

theorem freeForm_tells (scope : List String) :
    (telling registry).Runs (fun _ => True) (Resolving.freeForm scope) fun _ _ => True :=
  (push_tells rfl scope).bind fun _ => Regime.Runs.pure fun _ _ => trivial

theorem resolveProperty_tells (hc : calls.Tells registry) :
    (telling registry).Runs (fun _ => True) (resolveProperty calls trail pointer pos name node)
      fun property _ => property.name = name ∧ property.required = false := by
  unfold resolveProperty
  exact (hc.resolve _ _ _).bind fun model => Regime.Runs.pure fun arena _ => ⟨rfl, rfl⟩

/-- An object of the properties of a schema tells what the schema declares. -/
theorem tells_of_properties {object : ObjectModel} (hall : schema.allOf = [])
    (hp : List.Forall₂ (fun (pair : String × SchemaNode) (property : Property) =>
      property.name = pair.1 ∧ property.required = schema.required.contains pair.1)
        schema.properties object.properties) (hpeel : schema.peel? = none) :
    object.Tells registry.lookup (.inline schema) := by
  have hown : ∀ {reads : Schema → String → Prop} {name},
      registry.lookup.Finds reads (.inline schema) name ↔ reads schema name := by
    intro reads name
    rw [Lookup.finds_compatible (.inr hpeel)]
    simp [hall]
  have hmirrors := ObjectModel.mirrors_of_properties hp
  refine ⟨fun property hm h => ?_, fun name => ?_, fun name h => ?_, fun name hd hk => ?_⟩
  · obtain ⟨other, ho, hname, hrequired⟩ := h
    exact (hmirrors.flagged property hm).mpr (hname ▸ (hmirrors.flagged other ho).mp hrequired)
  · refine ⟨fun h => ?_, fun h => hmirrors.covered name (hown.mp h)⟩
    obtain ⟨property, hm, rfl⟩ := h
    exact hown.mpr (hmirrors.named property hm)
  · obtain ⟨property, hm, rfl, hrequired⟩ := h
    exact hown.mpr ((hmirrors.flagged property hm).mp hrequired)
  · obtain ⟨property, hm, rfl⟩ := hmirrors.covered name (hown.mp hd)
    exact ⟨property, hm, rfl,
      (hmirrors.flagged property hm).mpr (Lookup.keeps_own hpeel hall hk)⟩

theorem buildObject_tells (hc : calls.Tells registry) (hall : schema.allOf = []) :
    (telling registry).Runs (fun _ => True) (buildObject calls trail schema pos)
      fun model _ => schema.peel? = none → model.Tells registry.lookup (.inline schema) := by
  unfold buildObject
  refine Regime.Runs.bind (Regime.Runs.mapM (q := fun (pair : String × SchemaNode)
    (property : Property) _ =>
      property.name = pair.1 ∧ property.required = schema.required.contains pair.1) _
    (fun _ h => h) (fun _ h => h) fun (name, node) _ => ?_) fun properties => ?_
  · exact (resolveProperty_tells hc).bind fun property => Regime.Runs.pure fun arena h => ⟨h.1, rfl⟩
  · exact Regime.Runs.pure fun arena h => tells_of_properties hall h

/-- A schema without branches and properties declares nothing. -/
theorem tells_of_bare {model : Model} (hm : ∀ object, model ≠ .object object)
    (hall : schema.allOf = []) (hproperties : schema.properties = [])
    (hpeel : schema.peel? = none) : model.Tells registry.lookup (.inline schema) := by
  have hnone : ∀ name, ¬ registry.lookup.Declares (.inline schema) name := by
    intro name hd
    rw [Lookup.Declares, Lookup.finds_compatible (.inr hpeel)] at hd
    simp [hall, hproperties, Entries.keys] at hd
  cases model with
  | object built => exact absurd rfl (hm built)
  | _ => exact hnone

theorem unionCases_tells (hc : calls.Tells registry) (branches : List (SchemaNode × Nat)) :
    ∀ cases : List Case, (telling registry).Runs (fun _ => True)
      (unionCases calls trail schema pos branches cases) fun _ _ => True := by
  induction branches with
  | nil => exact fun cases => Regime.Runs.pure fun _ h => h
  | cons branch rest ih =>
    obtain ⟨node, index⟩ := branch
    intro cases
    rw [unionCases]
    split
    next => exact ih cases
    next =>
      exact (hc.resolve _ _ _).bind fun model => (ih _).weaken (fun _ _ => trivial) fun _ _ h => h

/-- Items are merged into an object one after the other. -/
theorem foldlM_takes {γ : Type} {good : Merged → Prop} {declared listed sure : γ → String → Prop}
    {step : Merged → γ → Resolving Merged} (items : List γ)
    (hs : ∀ item ∈ items, ∀ merged : Merged, (telling registry).Runs (fun _ => good merged)
      (step merged item) fun result _ => good result ∧
        merged.Takes (declared item) (listed item) (sure item) result) (start : Merged) :
    (telling registry).Runs (fun _ => good start) (items.foldlM step start) fun result _ =>
      good result ∧ start.Takes (fun name => ∃ item ∈ items, declared item name)
        (fun name => ∃ item ∈ items, listed item name)
        (fun name => ∃ item ∈ items, sure item name) result := by
  refine (Regime.Runs.foldlM (i := fun done merged _ => good merged ∧
    start.Takes (fun name => ∃ item ∈ done, declared item name)
      (fun name => ∃ item ∈ done, listed item name)
      (fun name => ∃ item ∈ done, sure item name) merged) items ?_ start).weaken
        (fun _ h => ⟨h, by simpa using Merged.Takes.refl start⟩) fun _ _ h => h
  intro done item rest hsplit merged
  have hm : item ∈ items := hsplit ▸ List.mem_append_right _ List.mem_cons_self
  have hsplit' : ∀ (p : γ → String → Prop) name, (∃ other ∈ done ++ [item], p other name) ↔
      (∃ other ∈ done, p other name) ∨ p item name := by
    intro p name
    simp [or_and_right, exists_or]
  refine ((hs item hm merged).frame (k := fun _ => start.Takes
    (fun name => ∃ item ∈ done, declared item name) (fun name => ∃ item ∈ done, listed item name)
    (fun name => ∃ item ∈ done, sure item name) merged) fun _ h => h).weaken (fun _ h => h) ?_
  rintro result after ⟨⟨hgood, hnew⟩, hbefore⟩
  exact ⟨hgood, (hbefore.trans hnew).weaken (fun name => hsplit' declared name)
    (fun name => (hsplit' listed name).mpr) fun name => (hsplit' sure name).mp⟩

/-- What a finished component has is merged into an object. -/
theorem mergeFinished_absorbs {id : ModelId} {object : ObjectModel} (additional : Bool)
    (ht : arena.Told registry.lookup) (hn : Section.schemas.named? path = some name)
    (hm : Entries.get? arena.memo name = some id) (hmodel : arena.model? id = some (.object object))
    (hf : merged.Formed) :
    merged.Absorbs registry.lookup (.ref path) (object.properties.foldl Merged.insert
        { merged with shaped := true, additional := additional }) := by
  have htells : object.Tells registry.lookup (.ref path) := ht.tells_ref hn hm hmodel
  refine ⟨hf.inherit _ _, (Merged.takes_inherit object additional).weaken ?_ ?_ ?_⟩
  · exact fun name => (htells.declares name).symm
  · exact fun name => htells.lists name
  · intro name h
    obtain ⟨hkeeps, hdeclares⟩ := Lookup.gathers_ref h
    exact htells.keeps name hdeclares hkeeps

/-- The text of an unfinished component is merged into an object. -/
theorem mergeUnfinished_tells (hc : calls.Tells registry) :
    (telling registry).Runs (fun _ => merged.Formed)
      (registry.mergeUnfinished calls trail path location pos merged)
      fun result _ => merged.Absorbs registry.lookup (.ref path) result := by
  rw [mergeUnfinished_eq]
  refine Regime.Runs.lift_bind (fun written hw => ?_) fun _ _ _ _ => trivial
  obtain ⟨owner, schema⟩ := written
  obtain ⟨name, hn, hwritten⟩ := Lookup.writtenAs_of_ok _ hw
  simp only
  split
  next => exact Regime.Runs.throw fun _ _ => trivial
  next =>
    split
    next => exact Regime.Runs.throw fun _ _ => trivial
    next hgood =>
      have hcompatible : schema.isObjectCompatible = true := by simpa using hgood
      refine (hc.merge _ schema _ _ merged hcompatible).weaken (fun _ h => h) ?_
      rintro result after ⟨hformed, htakes⟩
      refine ⟨hformed, htakes.weaken (fun name => (hwritten.finds hn).symm)
        (fun name => (hwritten.finds hn).mp) fun name => hwritten.gathers hn⟩

theorem mergeComponent_tells (hc : calls.Tells registry) :
    (telling registry).Runs (fun _ => merged.Formed)
      (registry.mergeComponent calls trail path location pos merged)
      fun result _ => merged.Absorbs registry.lookup (.ref path) result := by
  unfold mergeComponent
  refine (((resolveRef_tells hc).frame (k := fun _ => merged.Formed) fun _ h => h).weaken
    (fun _ h => ⟨trivial, h⟩) fun _ _ h => h).bind fun target => ?_
  rintro arena hh ⟨⟨name, hn, hm⟩, hf⟩
  refine Resolving.ensures_get_bind ?_
  have hrefl := (telling registry).refl arena
  cases hmodel : arena.model? target.id with
  | none => exact mergeUnfinished_tells hc arena hh hf
  | some model =>
    cases model with
    | object object =>
      exact Resolving.ensures_pure ⟨hh, hrefl, mergeFinished_absorbs _ hh.2 hn hm hmodel hf⟩
    | freeForm =>
      have hnone : ∀ name, ¬ registry.lookup.Declares (.ref path) name :=
        hh.2.tells_ref hn hm hmodel
      refine Resolving.ensures_pure ⟨hh, hrefl, hf, (Merged.Takes.refl merged).weaken
        (fun name => iff_false_intro (hnone name)) nofun fun name h => ?_⟩
      exact absurd (Lookup.gathers_ref h).2 (hnone name)
    | _ => exact Resolving.ensures_throw trivial

theorem mergeBranch_tells (hc : calls.Tells registry) (branch : SchemaNode × Nat) :
    (telling registry).Runs (fun _ => merged.Formed)
      (registry.mergeBranch calls trail pointer pos merged branch)
      fun result _ => result.Formed ∧ merged.Takes (registry.lookup.Declares branch.1)
        (registry.lookup.Lists branch.1) (fun name => SchemaNode.isAnnotation branch.1 = false ∧
          registry.lookup.Gathers branch.1 name) result := by
  unfold mergeBranch
  obtain ⟨node, index⟩ := branch
  cases node with
  | ref path =>
    refine (mergeComponent_tells hc).weaken (fun _ h => h) ?_
    rintro result after ⟨hformed, htakes⟩
    exact ⟨hformed, htakes.weaken (fun _ => Iff.rfl) (fun _ => id) fun _ h => h.2⟩
  | inline schema =>
    simp only
    split
    next hplain =>
      refine Regime.Runs.pure fun _ hf => ⟨hf, (Merged.Takes.refl merged).weaken
        (fun name => iff_false_intro (Lookup.annotation_declares_nothing hplain)) nofun fun name h => ?_⟩
      exact absurd (hplain.symm.trans h.1) (by simp)
    next =>
      split
      next hgood =>
        refine (hc.merge _ _ _ _ _ hgood).weaken (fun _ h => h) ?_
        rintro result after ⟨hformed, htakes⟩
        exact ⟨hformed, htakes.weaken (fun _ => Iff.rfl) (fun _ => id) fun _ h => h.2⟩
      next => exact Regime.Runs.throw fun _ _ => trivial

theorem insertProperty_takes (hc : calls.Tells registry) {merged : Merged}
    (hs : merged.Formed ∧ merged.shaped = true) :
    (telling registry).Runs (fun _ => True)
      (do
        let property ← resolveProperty calls trail pointer pos name node
        pure (merged.insert property))
      fun result _ => (result.Formed ∧ result.shaped = true) ∧
        merged.Takes (· = name) (fun _ => False) (fun _ => False) result := by
  refine (resolveProperty_tells hc).bind fun property => Regime.Runs.pure ?_
  rintro arena ⟨rfl, hoptional⟩
  exact ⟨hs.1.insert hs.2 property, Merged.takes_insert hoptional⟩

/-- The properties of a schema are put into an object; it is one where there are any. -/
theorem ownProperties_takes (hc : calls.Tells registry) (between : Merged) :
    (telling registry).Runs (fun _ => between.Formed)
      (schema.properties.foldlM (fun merged (name, node) => do
        let property ← resolveProperty calls trail pointer pos name node
        pure (merged.insert property))
        { between with shaped := between.shaped || declaresObject schema })
      fun result _ => result.Formed ∧ between.Takes (· ∈ Entries.keys schema.properties)
        (fun _ => False) (fun _ => False) result := by
  have hstep : ∀ pair ∈ schema.properties, ∀ merged : Merged,
      (telling registry).Runs
        (fun _ => merged.Formed ∧ (declaresObject schema = true → merged.shaped = true))
        (do
          let property ← resolveProperty calls trail pointer pos pair.1 pair.2
          pure (merged.insert property))
        fun result _ => (result.Formed ∧ (declaresObject schema = true → result.shaped = true)) ∧
          merged.Takes (· = pair.1) (fun _ => False) (fun _ => False) result := by
    rintro pair hm merged arena hh ⟨hformed, hshaped⟩
    have hobject : declaresObject schema = true := by
      unfold declaresObject
      cases hp : schema.properties with
      | nil => simp [hp] at hm
      | cons first rest => simp
    refine (insertProperty_takes hc ⟨hformed, hshaped hobject⟩ arena hh trivial).weaken ?_
      fun _ h => h
    rintro result after ⟨hh', hl, ⟨hformed', hshaped'⟩, htakes⟩
    exact ⟨hh', hl, ⟨hformed', fun _ => hshaped'⟩, htakes⟩
  refine (foldlM_takes schema.properties hstep _).weaken (fun arena h => ?_) ?_
  · refine ⟨⟨⟨h.keyed.named, h.keyed.nodup⟩, fun name hd => ?_⟩, fun hobject => by simp [hobject]⟩
    simp [h.shaped name hd]
  · rintro result after ⟨⟨hformed, _⟩, htakes⟩
    refine ⟨hformed, ((Merged.takes_shape _).trans htakes).weaken (fun name => ?_) ?_ nofun⟩
    · simp [Entries.keys, eq_comm]
    · rintro name (hnone | ⟨_, _, hnone⟩) <;> exact hnone

theorem mergeSchema_tells (hc : calls.Tells registry) (hgood : schema.isObjectCompatible = true) :
    (telling registry).Runs (fun _ => merged.Formed)
      (registry.mergeSchema calls trail schema pointer pos merged)
      fun result _ => merged.Absorbs registry.lookup (.inline schema) result := by
  unfold mergeSchema
  refine (foldlM_takes schema.allOf.zipIdx (fun branch _ merged => mergeBranch_tells hc branch)
    merged).bind fun between => ?_
  refine Regime.Runs.bind (((ownProperties_takes hc between).frame
    (k := fun _ => merged.Takes _ _ _ between) fun _ h => h).weaken (fun _ h => h)
      fun _ _ h => h) fun result => Regime.Runs.pure ?_
  rintro arena ⟨⟨hformed, hown⟩, hbranches⟩
  refine ⟨⟨⟨hformed.keyed.named, hformed.keyed.nodup⟩, hformed.shaped⟩, ?_⟩
  have htakes := (hbranches.trans hown).trans (Merged.takes_require schema.required
    (result.additional || schema.allowsAdditional? == some true))
  refine htakes.weaken (fun name => ?_) (fun name h => ?_) fun name h => ?_
  · rw [Lookup.declares_compatible (.inl hgood), or_false, or_comm,
      exists_zipIdx_iff (p := fun node => registry.lookup.Declares node name)]
  · rw [or_false, exists_zipIdx_iff (p := fun node => registry.lookup.Lists node name)] at h
    exact (Lookup.lists_compatible (.inl hgood)).mpr (Or.comm.mp h)
  · rw [or_false, or_comm, exists_zipIdx_iff (p := fun node =>
      node.isAnnotation = false ∧ registry.lookup.Gathers node name)]
    exact Lookup.gathers_compatible hgood h

/-- An object that a node was merged into tells what the node declares. -/
theorem tells_of_absorbs {object : ObjectModel}
    (h : Merged.Absorbs registry.lookup node {} merged)
    (hp : object.properties = merged.finish) : object.Tells registry.lookup node := by
  obtain ⟨hformed, htakes⟩ := h
  have hfinish : ∀ name, object.Has (.declares name) ↔ merged.Has (.declares name) := fun name =>
    Merged.has_finish hformed.keyed hp
  have hasks : ∀ name, object.Has (.asks name) ↔
      merged.Has (.declares name) ∧ merged.Has (.asks name) := fun name =>
    Merged.has_finish hformed.keyed hp
  have hdeclares : ∀ name, merged.Has (.declares name) ↔ registry.lookup.Declares node name := by
    intro name
    rw [htakes.declares]
    simp [Merged.not_has_empty]
  refine ⟨hformed.keyed.coherent hp, fun name => (hfinish name).trans (hdeclares name),
    fun name ha => ?_, fun name hd hk => ?_⟩
  · exact (htakes.lists name ((hasks name).mp ha).2).resolve_left Merged.not_has_empty
  · exact (hasks name).mpr ⟨(hdeclares name).mpr hd, htakes.keeps name (.inr ⟨hk, hd⟩)⟩

theorem buildAllOf_tells (hc : calls.Tells registry) :
    (telling registry).Runs (fun _ => True) (registry.buildAllOf calls trail schema pos)
      fun model _ => model.Tells registry.lookup (.inline schema) := by
  unfold buildAllOf
  split
  next => exact Regime.Runs.throw fun _ _ => trivial
  next hgood =>
    have hcompatible : schema.isObjectCompatible = true := by simpa using hgood
    refine ((mergeSchema_tells hc hcompatible).weaken (fun _ _ => Merged.formed_empty)
      fun _ _ h => h).bind fun merged => ?_
    split
    next => exact Regime.Runs.pure fun arena h => tells_of_absorbs h rfl
    next hs =>
      refine Regime.Runs.pure fun arena h name hd => ?_
      exact hs (h.1.shaped name ((h.2.declares name).mpr (.inr hd)))

/-- A model is built by the form of its schema. -/
theorem buildForm_tells (hc : calls.Tells registry) {several : Resolving Model}
    (hs : (telling registry).Runs (fun _ => True) several
      fun model _ => ∀ object, model ≠ .object object) :
    (telling registry).Runs (fun _ => True)
      (registry.buildForm calls several trail schema pos (registry.form schema))
      fun model _ => schema.peel? = none → model.Tells registry.lookup (.inline schema) := by
  have hform : registry.form schema = registry.lookup.form schema := rfl
  have hparts : ∀ {work : Resolving Model}, registry.lookup.form schema ≠ .merged →
      registry.lookup.form schema ≠ .object → (telling registry).Runs (fun _ => True) work
        (fun model _ => ∀ object, model ≠ .object object) → (telling registry).Runs (fun _ => True)
          work fun model _ => schema.peel? = none → model.Tells registry.lookup (.inline schema) := by
    intro work hm ho hrun
    obtain ⟨hall, hproperties⟩ := Lookup.bare_of_form hm ho
    exact hrun.weaken (fun _ h => h) fun model _ h => tells_of_bare h hall hproperties
  rw [hform]
  cases hf : registry.lookup.form schema with
  | merged => exact (buildAllOf_tells hc).weaken (fun _ h => h) fun _ _ h _ => h
  | object => exact buildObject_tells hc (Lookup.branches_of_form hf)
  | several => exact hparts (by simp [hf]) (by simp [hf]) hs
  | array =>
    refine hparts (by simp [hf]) (by simp [hf]) ?_
    unfold buildForm buildArray
    have helement : ∀ element : Resolved, (telling registry).Runs (fun _ => True)
        (pure (Model.collection (if schema.uniqueItems.getD false then .set element else .list element)))
        fun model _ => ∀ object, model ≠ Model.object object :=
      fun element => Regime.Runs.pure fun arena _ object he => by cases he
    cases schema.items with
    | none => exact (freeForm_tells _).bind helement
    | some items =>
      exact ((hc.resolve _ _ _).weaken (fun _ h => h) fun _ _ _ => trivial).bind helement
  | map value =>
    refine hparts (by simp [hf]) (by simp [hf]) ?_
    unfold buildForm buildMap
    exact (hc.resolve _ _ _).bind fun element => Regime.Runs.pure fun arena _ object he => by cases he
  | union =>
    refine hparts (by simp [hf]) (by simp [hf]) ?_
    unfold buildForm buildUnion
    refine (unionCases_tells hc _ []).bind fun cases => ?_
    split
    · exact Regime.Runs.pure fun arena _ object he => by cases he
    · exact Regime.Runs.pure fun arena _ object he => by cases he
  | plain =>
    refine hparts (by simp [hf]) (by simp [hf]) ?_
    exact Regime.Runs.lift (fun model arena hm _ => plainModel_ne_object hm) fun _ _ _ _ => trivial

theorem buildTypeUnion_tells (hc : calls.Tells registry) :
    (telling registry).Runs (fun _ => True) (registry.buildTypeUnion calls trail schema pos)
      fun model _ => ∀ object, model ≠ .object object := by
  unfold buildTypeUnion typeCases
  refine Regime.Runs.bind (Regime.Runs.mapM (q := fun _ (_ : Case) _ => True) _
    (fun _ h => h) (fun _ h => h) fun (type, index) _ => ?_) fun cases =>
      Regime.Runs.pure fun arena _ object he => by cases he
  simp only [classify_eq_buildForm]
  refine (place_tells (buildForm_tells hc (Regime.Runs.pure fun arena _ object he => by cases he))
    (buildForm_steady hc.steady (Regime.Runs.pure fun _ _ child hchild => ?_) _) pos.scope).weaken
      (fun _ h => h) fun _ _ _ => trivial
  simp [Model.children] at hchild

theorem buildSchema_tells (hc : calls.Tells registry) :
    (telling registry).Runs (fun _ => True) (registry.buildSchema calls trail schema pos)
      fun model _ => schema.peel? = none → model.Tells registry.lookup (.inline schema) := by
  rw [buildSchema_eq_buildForm]
  exact buildForm_tells hc (buildTypeUnion_tells hc)

theorem resolveNode_tells (hc : calls.Tells registry) :
    (telling registry).Runs (fun _ => True) (registry.resolveNode calls trail node pos)
      fun resolved after => ∀ model, after.model? resolved.id = some model →
        model.Tells registry.lookup node := by
  unfold resolveNode
  simp only [SchemaNode.unwrap_node]
  cases hbare : node.bare with
  | ref path =>
    intro arena hh _
    refine (resolveRef_tells hc arena hh trivial).weaken ?_ fun _ h => h
    rintro resolved after ⟨hafter, hl, name, hn, hm⟩
    refine ⟨hafter, hl, fun model hmodel => Model.Tells.of_bare ?_⟩
    rw [hbare]
    exact hafter.2.tells_ref hn hm hmodel
  | inline schema =>
    refine (place_tells (hc.build _ _ _) (hc.steady.build _ _ _) pos.scope).weaken
      (fun _ h => h) ?_
    rintro resolved after ⟨id, model, rfl, hmodel, htells⟩ other hother
    cases hmodel.symm.trans hother
    refine Model.Tells.of_bare ?_
    rw [hbare]
    exact htells (SchemaNode.peel?_of_bare hbare)

theorem step_tells (hc : calls.Tells registry) : (registry.step calls).Tells registry :=
  ⟨step_steady hc.steady, fun _ _ _ => resolveNode_tells hc, fun _ _ _ => buildSchema_tells hc,
    fun _ _ _ _ _ hgood => mergeSchema_tells hc hgood⟩

theorem noCalls_tells : noCalls.Tells registry :=
  ⟨noCalls_steady, fun _ _ _ => Regime.Runs.throw fun _ _ => trivial,
    fun _ _ _ => Regime.Runs.throw fun _ _ => trivial,
    fun _ _ _ _ _ _ => Regime.Runs.throw fun _ _ => trivial⟩

/-- Calls nested to any depth tell what their nodes declare. -/
theorem callsWithin_tells (depth : Nat) : (registry.callsWithin noCalls depth).Tells registry := by
  induction depth with
  | zero =>
    rw [callsWithin_zero]
    exact noCalls_tells
  | succ depth ih =>
    rw [callsWithin_succ]
    exact step_tells ih

theorem component_tells :
    (telling registry).Runs (fun _ => True) (registry.component name)
      fun id after => Entries.get? after.memo name = some id :=
  componentId_tells (callsWithin_tells _)

theorem Sweeps.told {names : List String} {report : Report} {after : Arena}
    (h : registry.Sweeps names arena report after) (ht : arena.Told registry.lookup) :
    after.Told registry.lookup := by
  induction h with
  | done => exact ht
  | noted _ _ ih => exact ih ht
  | kept hrested _ he _ _ _ ih =>
    have hok := Resolving.attempt_eq_ok.mp he
    exact ih ((Resolving.ensures_iff.mp
      (component_tells _ ⟨hrested.sound, ht⟩ trivial)).1 _ _ hok).1.2
  | failed _ _ _ _ ih => exact ih ⟨ht.stands, ht.settled⟩

/-- What an arena tells of finished components is true from the start on, once all components are
resolved, and wherever work goes on from there. In whatever state a node is resolved to an object,
each property is required that is listed in the text of the node, unless its list is lost, and none
that is not listed. -/
theorem required_of_listed (registry : Registry) :
    (telling registry).holds {} ∧ (telling registry).holds (registry.resolveComponents {}).2 ∧
      ∀ depth trail node pos, (telling registry).Runs (fun _ => True)
        (registry.resolveWithin noCalls depth trail node pos) fun resolved after =>
          ∀ object, after.model? resolved.id = some (.object object) →
            ∀ property ∈ object.properties,
              (registry.lookup.Keeps false node property.name → property.required = true) ∧
                (property.required = true → registry.lookup.Lists node property.name) := by
  have hempty : ({} : Arena).Told registry.lookup := Arena.Told.empty _
  refine ⟨⟨Arena.Sound.empty _, hempty⟩, ?_, fun depth trail node pos => ?_⟩
  · have hsweeps := sweeps_resolveNames (Entries.keys registry.schemas) {}
      (Arena.Rested.empty registry)
    exact ⟨hsweeps.rested.sound, hsweeps.told hempty⟩
  · have htells : (registry.callsWithin noCalls depth).Tells registry := callsWithin_tells depth
    refine (htells.resolve trail node pos).weaken (fun _ h => h) ?_
    intro resolved after h object hobject property hm
    have ht : object.Tells registry.lookup node := h _ hobject
    have hdeclares : registry.lookup.Declares node property.name :=
      (ht.declares _).mp ⟨property, hm, rfl⟩
    refine ⟨fun hkeeps => ?_, fun hrequired => ht.lists _ ⟨property, hm, rfl, hrequired⟩⟩
    exact ht.coherent property hm (ht.keeps _ hdeclares hkeeps)

/-- Objects with one property. -/
def having (name : String) (required : List String) : Schema where
  types := some (.single .object)
  properties := [(name, .inline { types := some (.single .string) })]
  required := required

/-- Components that list a name where the list is lost: in a branch that has nothing else, in a
wrapper, and in what another one extends. -/
def forgetful : Registry where
  schemas := [
    ("Marked", .inline { allOf := [.inline (having "name" []), .inline (having "age" []),
      .inline { required := ["name"] }] }),
    ("Wrapper", .inline { allOf := [.inline (having "name" [])], required := ["name"] }),
    ("Base", .inline (having "age" ["name"])),
    ("Extended", .inline { allOf := [.ref "#/components/schemas/Base",
      .inline (having "name" [])] })]
  openExtensions := []

/-- The names are listed, and none of the objects requires them. -/
theorem forgetful_not_required :
    (∀ name ∈ ["Marked", "Wrapper", "Extended"], ∃ path, Section.schemas.named? path = some name ∧
      forgetful.lookup.Lists (.ref path) "name") ∧
    (["Marked", "Wrapper", "Extended"].map fun name =>
      ((forgetful.resolveComponents {}).2.object? name).map ObjectModel.flags) =
        [some [("name", false), ("age", false)], some [("name", false)],
          some [("age", false), ("name", false)]] := by
  constructor
  · intro name hm
    simp only [List.mem_cons, List.not_mem_nil, or_false] at hm
    rcases hm with rfl | rfl | rfl
    · have hmarker : forgetful.lookup.Lists (.inline { required := ["name"] }) "name" :=
        .own List.mem_cons_self
      exact ⟨"#/components/schemas/Marked", rfl, .base rfl rfl (.part (by simp) hmarker)⟩
    · exact ⟨"#/components/schemas/Wrapper", rfl, .base rfl rfl (.own List.mem_cons_self)⟩
    · have hbase : forgetful.lookup.Lists (.ref "#/components/schemas/Base") "name" :=
        .base rfl rfl (.own List.mem_cons_self)
      exact ⟨"#/components/schemas/Extended", rfl, .base rfl rfl (.part List.mem_cons_self hbase)⟩
  · decide +kernel

end Registry

end ApiAtlas
