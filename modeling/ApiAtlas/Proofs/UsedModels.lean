import ApiAtlas.Proofs.EnteredComponents
import ApiAtlas.Proofs.Reachability
import ApiAtlas.Proofs.Redefinitions
import ApiAtlas.Proofs.RequiredNames

namespace ApiAtlas

theorem Regime.Runs.and {regime : Regime} {α : Type} {work : Resolving α} {p p' : Arena → Prop}
    {q q' : α → Arena → Prop} (h : regime.Runs p work q) (h' : regime.Runs p' work q') :
    regime.Runs (fun arena => p arena ∧ p' arena) work fun a after => q a after ∧ q' a after :=
  fun arena hh hp => ((h arena hh hp.1).and (h' arena hh hp.2)).weaken
    (fun _ _ hq => ⟨hq.1.1, hq.1.2.1, hq.1.2.2, hq.2.2.2⟩) fun _ hl => hl.1

/-- Work that keeps to both regimes comes to what either says. -/
theorem telling_and_growing {registry : Registry} {α : Type} {work : Resolving α}
    {p : Arena → Prop} {q r : α → Arena → Prop} (h : (telling registry).Runs p work q)
    (h' : (growing registry).Runs (fun _ => True) work r) :
    (telling registry).Runs p work fun a after => q a after ∧ r a after :=
  fun arena hh hp => ((h arena hh hp).and (h' arena hh.1 trivial)).weaken
    (fun _ _ hq => ⟨hq.1.1, hq.1.2.1, hq.1.2.2, hq.2.2.2⟩) fun _ _ => trivial

/-- What work may find: components that are unfinished, and components that were not met. -/
structure Stage where
  unfinished : Set String
  unmet : Set String

/-- The first stage: any component may still be met, and none is unfinished. -/
def Stage.first : Stage := ⟨∅, Set.univ⟩

/-- The last stage: all components were met, and none is unfinished. -/
def Stage.last : Stage := ⟨∅, ∅⟩

/-- No component but those has neither a place nor failed. -/
def Arena.Met (lookup : Lookup) (unmet : Set String) (arena : Arena) : Prop :=
  ∀ name schema, lookup.Own name schema → Entries.get? arena.memo name = none →
    name ∉ arena.failed → name ∈ unmet

/-- The arena has no other components that are unfinished or were not met. -/
structure Arena.Within (lookup : Lookup) (stage : Stage) (arena : Arena) : Prop where
  unfinished : ∀ name, arena.Unfinished lookup name → name ∈ stage.unfinished
  met : arena.Met lookup stage.unmet

namespace Arena

variable {lookup : Lookup} {stage : Stage} {unmet : Set String} {before after arena : Arena}
  {name : String}

theorem Met.grows (h : before.Met lookup unmet) (hg : before.Grows after) :
    after.Met lookup unmet := by
  intro name schema ho hm hf
  refine h name schema ho ?_ (hg.failed ▸ hf)
  cases hb : Entries.get? before.memo name with
  | none => rfl
  | some id =>
    rw [hg.memo_get? hb] at hm
    cases hm

theorem Within.closes (h : before.Within lookup stage) (hg : before.Grows after)
    (hc : before.Closes lookup after) : after.Within lookup stage :=
  ⟨fun name hn => h.unfinished name (hn.of_closes hg hc), h.met.grows hg⟩

theorem Within.reserve (h : arena.Within lookup stage) (scope : List String) :
    (arena.reserve scope).2.Within lookup stage :=
  ⟨fun name hn => h.unfinished name (unfinished_reserve.mp hn), h.met⟩

/-- The components that are unfinished are those that have a place and no model. -/
theorem Unfinished.mem (h : arena.Unfinished lookup name) : name ∈ arena.unfinished := by
  obtain ⟨schema, id, _, hm, hn⟩ := h
  exact List.mem_map_of_mem (f := Prod.fst) (List.mem_filter.mpr
    ⟨Entries.mem_of_get? hm, by simp [hn]⟩)

end Arena

namespace Registry

/-- At a stage the work leaves no model unused: what it makes is used by a component or by what it
comes to. -/
def Leaves (registry : Registry) (stage : Stage) {α : Type} (work : Resolving α)
    (ids : α → Set ModelId) : Prop :=
  ∀ roots, (telling registry).Runs
    (fun arena => arena.Within registry.lookup stage ∧ arena.Tidy roots) work
    fun a after => after.Tidy (roots ∪ ids a)

/-- At a stage the work merges a node into an object and leaves no model unused, where some names
were brought before. -/
def Enlarges (registry : Registry) (stage : Stage) (node : SchemaNode) (merged : Merged)
    (brought : Set String) (merge : Resolving Merged) : Prop :=
  ∀ roots, (telling registry).Runs
    (fun arena => arena.Within registry.lookup stage ∧ merged.Secured brought arena ∧
      arena.Tidy (roots ∪ merged.places)) merge
    fun result after =>
      result.Secured (brought ∪ {name | registry.lookup.Brings stage.unfinished node name}) after ∧
        after.Tidy (roots ∪ result.places)

end Registry

/-- Calls that leave no model unused, in a component that is entered or in other work, where those
components at most were not met before. -/
structure Calls.Tidies (registry : Registry) (unmet : Set String) (calls : Calls) : Prop where
  tells : calls.Tells registry
  enter : ∀ name ∈ unmet, ∀ trail schema pos, registry.lookup.Own name schema →
    registry.bodyAt? pos = some name → ∀ roots,
      (telling registry).Runs
        (fun arena => arena.Met registry.lookup unmet ∧ arena.Tidy roots)
        (calls.build trail schema pos) fun model after => after.Tidy (roots ∪ placesOf model.children)
  resolve : ∀ unfinished trail node pos, registry.lookup.Undisputed unfinished (.resolve node) →
    registry.Leaves ⟨unfinished, unmet⟩ (calls.resolve trail node pos)
      fun resolved => {resolved.id}
  build : ∀ unfinished trail schema pos, registry.lookup.Undisputed unfinished (.build schema) →
    registry.Leaves ⟨unfinished, unmet⟩ (calls.build trail schema pos)
      fun model => placesOf model.children
  merge : ∀ unfinished trail schema pointer pos merged brought, schema.isObjectCompatible = true →
    registry.lookup.Undisputed unfinished (.merge schema) →
    (∀ name ∈ brought, ¬ registry.lookup.Declares (.inline schema) name) →
    registry.Enlarges ⟨unfinished, unmet⟩ (.inline schema) merged brought
      (calls.merge trail schema pointer pos merged)

namespace Registry

variable {registry : Registry} {calls : Calls} {stage : Stage} {trail : Trail}
  {schema : Schema} {node body : SchemaNode} {pos : Position}
  {name path pointer location reference : String} {merged : Merged} {arena : Arena}
  {roots : Set ModelId} {brought : Set String} {allowed : List Entry}

section

variable {α β : Type} {work : Resolving α} {ids wider : α → Set ModelId}

theorem Leaves.weaken (h : registry.Leaves stage work ids) (hw : ∀ a, ids a ⊆ wider a) :
    registry.Leaves stage work wider :=
  fun roots => (h roots).weaken (fun _ hp => hp) fun a _ ht =>
    ht.subset (Set.union_subset_union_right roots (hw a))

theorem leaves_pure (a : α) : registry.Leaves stage (pure a) ids :=
  fun _ => Regime.Runs.pure fun _ h => h.2.subset Set.subset_union_left

theorem leaves_throw (error : ResolveError) : registry.Leaves stage (throw error : Resolving α) ids :=
  fun _ => Regime.Runs.throw fun _ _ => trivial

theorem leaves_lift (result : Except ResolveError α) : registry.Leaves stage (liftM result) ids :=
  fun _ => Regime.Runs.lift (fun _ _ _ h => h.2.subset Set.subset_union_left)
    fun _ _ _ _ => trivial

theorem Leaves.kept (h : registry.Leaves stage work ids) (roots : Set ModelId) :
    (telling registry).Runs
      (fun arena => arena.Within registry.lookup stage ∧ arena.Tidy roots) work
      fun a after => after.Within registry.lookup stage ∧ after.Tidy (roots ∪ ids a) := by
  refine (((h roots).frame (k := fun arena => arena.Within registry.lookup stage) ?_).weaken
    (fun _ hp => ⟨hp, hp.1⟩) fun _ _ hq => hq.symm)
  exact fun hl hw => hw.closes hl.1 hl.2.2

/-- Work that is followed by other work, which uses what the first has made. -/
theorem Leaves.bind {next : α → Resolving β} {last : β → Set ModelId}
    (h : registry.Leaves stage work ids)
    (hn : ∀ a roots, (telling registry).Runs
      (fun arena => arena.Within registry.lookup stage ∧ arena.Tidy (roots ∪ ids a)) (next a)
      fun b after => after.Tidy (roots ∪ last b)) : registry.Leaves stage (work >>= next) last :=
  fun roots => (h.kept roots).bind fun a => hn a roots

/-- Work whose result is changed to one that uses the same. -/
theorem Leaves.bind_pure {change : α → β} {last : β → Set ModelId}
    (h : registry.Leaves stage work ids) (hc : ∀ a, ids a ⊆ last (change a)) :
    registry.Leaves stage (work >>= fun a => pure (change a)) last :=
  h.bind fun a roots => Regime.Runs.pure fun _ ht =>
    ht.2.subset (Set.union_subset_union_right roots (hc a))

theorem leaves_mapM {each : β → Resolving α} (items : List β)
    (he : ∀ item ∈ items, registry.Leaves stage (each item) ids) :
    registry.Leaves stage (items.mapM each) fun results => {id | ∃ a ∈ results, id ∈ ids a} := by
  induction items with
  | nil =>
    rw [List.mapM_nil]
    exact leaves_pure _
  | cons item rest ih =>
    rw [List.mapM_cons]
    have hrest := ih fun other ho => he other (List.mem_cons_of_mem _ ho)
    refine (he item List.mem_cons_self).bind fun a roots => ?_
    refine Regime.Runs.bind (hrest _) fun results => Regime.Runs.pure fun arena ht => ?_
    refine ht.subset ?_
    rintro id ((hr | ha) | ⟨b, hb, hi⟩)
    · exact .inl hr
    · exact .inr ⟨a, List.mem_cons_self, ha⟩
    · exact .inr ⟨b, List.mem_cons_of_mem _ hb, hi⟩

end

/-- A component that is another name. -/
theorem componentId_alias_tidies (hc : calls.Tidies registry stage.unmet)
    (hb : Entries.get? registry.schemas name = some body) (hbare : body.bare = .ref path)
    (hf : name ∉ arena.failed) (hh : (telling registry).holds arena)
    (hw : arena.Within registry.lookup stage) (ht : arena.Tidy roots) :
    (do
      let target ← calls.resolve { trail with aliases := trail.aliases ++ [name] } (.ref path) pos
      modify fun arena => arena.remember name target.id
      pure target.id : Resolving ModelId).Ensures arena (fun _ after => after.Tidy roots)
        fun _ => True := by
  have hresolve := hc.resolve stage.unfinished { trail with aliases := trail.aliases ++ [name] }
    (.ref path) pos Lookup.undisputed_ref roots arena hh ⟨hw, ht⟩
  refine Resolving.ensures_bind ((hresolve.and
    (hc.tells.steady.resolve _ (.ref path) pos arena hh.1 trivial)).weaken (fun _ _ h => h)
      fun _ _ => trivial) ?_
  rintro target after ⟨⟨_, hl, htidy⟩, hsound, _, hholds, hanswers⟩
  obtain ⟨other, id, rfl, hname⟩ := hanswers.of_ref (SchemaNode.bare_ref path)
  have halias : registry.lookup.Alias name other := ⟨body, path, hb, hbare, hname⟩
  have hgrows := (hsound.remember_alias halias hholds (hl.1.failed ▸ hf)).2
  have hafter : after.Tidy roots := htidy.mono fun root hroot =>
    hroot.elim Arena.Reaches.root fun he => he ▸ .component hholds
  exact Resolving.ensures_modify_bind (Resolving.ensures_pure (hafter.remember hgrows))

/-- A component with a body of its own, which is entered. -/
theorem componentId_body_tidies (hc : calls.Tidies registry stage.unmet)
    (hb : Entries.get? registry.schemas name = some body) (hbare : body.bare = .inline schema)
    (hpos : registry.bodyAt? pos = some name)
    (hm : Entries.get? arena.memo name = none) (hf : name ∉ arena.failed)
    (hh : (telling registry).holds arena) (hw : arena.Within registry.lookup stage)
    (ht : arena.Tidy roots) :
    (do
      let id ← Resolving.reserve []
      modify fun arena => arena.remember name id
      let model ← calls.build {} schema pos
      Resolving.fill id model
      pure id : Resolving ModelId).Ensures arena (fun _ after => after.Tidy roots)
        fun _ => True := by
  have howns : registry.lookup.Own name schema := ⟨body, hb, hbare⟩
  have henter := telling_enter hh howns hm hf
  have hgrows : arena.Grows ((arena.reserve []).2.remember name arena.slots.length) :=
    (Arena.grows_reserve arena []).trans (Arena.grows_remember hm hf)
  -- The new place is that of the component, from when it is noted on.
  have hplace : Entries.get? ((arena.reserve []).2.remember name arena.slots.length).memo name =
      some arena.slots.length := Entries.get?_set_self
  have hstart : ((arena.reserve []).2.remember name arena.slots.length).Tidy roots := by
    refine ((ht.reserve []).remember (Arena.grows_remember hm hf)).mono fun root hroot => ?_
    rcases hroot with rfl | hr
    · exact .component hplace
    · exact .root hr
  refine Resolving.ensures_reserve_bind (Resolving.ensures_modify_bind (Resolving.ensures_bind
    (hc.enter name (hw.met name schema howns hm hf) {} schema pos howns hpos roots _ henter
      ⟨hw.met.grows hgrows, hstart⟩) ?_))
  rintro model after ⟨_, hl, htidy⟩
  obtain ⟨hid, hempty⟩ := hl.1.reserved rfl
  have hnoted : Entries.get? after.memo name = some arena.slots.length := hl.1.memo_get? hplace
  exact Resolving.ensures_fill_bind (Resolving.ensures_pure
    (htidy.fill hid hempty (.component hnoted)))

theorem componentId_tidies (hc : calls.Tidies registry stage.unmet) (roots : Set ModelId) :
    (telling registry).Runs
      (fun arena => arena.Within registry.lookup stage ∧ arena.Tidy roots)
      (registry.componentId calls trail name reference location)
      fun id after => Entries.get? after.memo name = some id ∧ after.Tidy roots := by
  intro arena hh hp
  refine ((componentId_tells hc.tells arena hh trivial).and (?_ : Resolving.Ensures _ arena
    (fun _ after => after.Tidy roots) fun _ => True)).weaken ?_ fun _ _ => trivial
  · obtain ⟨hw, ht⟩ := hp
    rw [componentId_eq]
    refine Resolving.ensures_get_bind ?_
    cases hm : Entries.get? arena.memo name with
    | some id => exact Resolving.ensures_pure ht
    | none =>
      simp only
      split
      next => exact Resolving.ensures_throw trivial
      next hf =>
        have hf' : name ∉ arena.failed := by simpa using hf
        split
        next => exact Resolving.ensures_throw trivial
        next =>
          cases hb : Entries.get? registry.schemas name with
          | none => exact Resolving.ensures_throw trivial
          | some body =>
            simp only [SchemaNode.unwrap_node]
            cases hbare : body.bare with
            | ref path => exact componentId_alias_tidies hc hb hbare hf' hh hw ht
            | inline schema =>
              exact componentId_body_tidies hc hb hbare (bodyAt?_body hb) hm hf' hh hw ht
  · rintro id after ⟨⟨hh', hl, hm⟩, htidy⟩
    exact ⟨hh', hl, hm, htidy⟩

/-- What a reference leads to is a component, and used as such. -/
theorem resolveRef_tidies (hc : calls.Tidies registry stage.unmet) (roots : Set ModelId) :
    (telling registry).Runs
      (fun arena => arena.Within registry.lookup stage ∧ arena.Tidy roots)
      (registry.resolveRef calls trail path location)
      fun resolved after => (∃ name, Section.schemas.named? path = some name ∧
        Entries.get? after.memo name = some resolved.id) ∧ after.Tidy roots := by
  unfold resolveRef
  refine Regime.Runs.lift_bind (fun name hname => ?_) fun _ _ _ _ => trivial
  have hnamed : Section.schemas.named? path = some name := Section.parseName_eq_ok_iff.mp hname
  exact (componentId_tidies hc roots).bind fun id =>
    Regime.Runs.pure fun arena h => ⟨⟨name, hnamed, h.1⟩, h.2⟩

/-- A place is reserved, a model is built, and the model is put at the place. -/
theorem place_leaves {α : Type} {build : Resolving Model} {answer : ModelId → α}
    {ids : α → Set ModelId} (hb : registry.Leaves stage build fun model => placesOf model.children)
    (ht : (telling registry).Runs (fun _ => True) build fun _ _ => True)
    (hs : (growing registry).Runs (fun _ => True) build Model.Held) (scope : List String)
    (hi : ∀ id, id ∈ ids (answer id)) :
    registry.Leaves stage
      (do
        let id ← Resolving.reserve scope
        let model ← build
        Resolving.fill id model
        pure (answer id)) ids := by
  intro roots arena hh hp
  refine ((place_tells ht hs scope arena hh trivial).and (?_ : Resolving.Ensures _ arena
    (fun a after => after.Tidy (roots ∪ ids a)) fun _ => True)).weaken
      (fun _ _ h => ⟨h.1.1, h.1.2.1, h.2⟩) fun _ _ => trivial
  refine Resolving.ensures_reserve_bind (Resolving.ensures_bind
    (hb _ _ ⟨hh.1.reserve scope, hh.2.reserve scope⟩ ⟨hp.1.reserve scope, hp.2.reserve scope⟩) ?_)
  rintro model after ⟨_, hl, htidy⟩
  obtain ⟨hid, hempty⟩ := hl.1.reserved rfl
  refine Resolving.ensures_fill_bind (Resolving.ensures_pure ?_)
  refine (htidy.fill hid hempty (.root (Set.mem_insert _ _))).subset ?_
  rintro id (rfl | hr)
  · exact .inr (hi _)
  · exact .inl hr

theorem push_leaves {model : Model} (hm : model.children = []) (scope : List String) :
    registry.Leaves stage (Resolving.push model scope) fun id => {id} := by
  intro roots arena hh hp
  obtain ⟨hafter, hl, _⟩ := push_tells hm scope arena hh trivial
  refine ⟨hafter, hl, ?_⟩
  have hnone : (arena.reserve scope).2.model? arena.slots.length = none :=
    Arena.model?_reserve_self arena scope
  have hplaces : (arena.reserve scope).2.Tidy
      (insert arena.slots.length roots ∪ placesOf model.children) :=
    (hp.2.reserve scope).subset Set.subset_union_left
  refine (hplaces.fill (Arena.lt_reserve arena scope) hnone
    (.root (Set.mem_insert _ _))).subset ?_
  rintro id (rfl | hr)
  · exact .inr rfl
  · exact .inl hr

theorem freeForm_leaves (scope : List String) :
    registry.Leaves stage (Resolving.freeForm scope) fun resolved => {resolved.id} :=
  (push_leaves rfl scope).bind_pure fun _ => subset_rfl

/-- The model of a property is a component, or it is made for the property. -/
theorem resolveProperty_tidies (hc : calls.Tidies registry stage.unmet)
    (hf : registry.lookup.Undisputed stage.unfinished (.resolve node)) (roots : Set ModelId) :
    (telling registry).Runs (fun arena => arena.Within registry.lookup stage ∧ arena.Tidy roots)
      (resolveProperty calls trail pointer pos name node)
      fun property after => after.Tidy (roots ∪ {property.model.id}) ∧ property.name = name ∧
        ((∃ inner, node.bare = .inline inner) ∨ after.Reaches ∅ property.model.id) := by
  unfold resolveProperty
  refine (telling_and_growing (hc.resolve stage.unfinished _ node _ hf roots)
    (hc.tells.steady.resolve _ node _)).bind fun model => Regime.Runs.pure ?_
  rintro arena ⟨htidy, hholds, hanswers⟩
  refine ⟨htidy, rfl, ?_⟩
  cases model with
  | value id =>
    obtain ⟨inner, hinner⟩ := hanswers
    exact .inl ⟨inner, hinner⟩
  | ref other id => exact .inr (.component hholds)

theorem buildObject_leaves (hc : calls.Tidies registry stage.unmet)
    (hf : registry.lookup.Undisputed stage.unfinished (.merge schema)) :
    registry.Leaves stage (buildObject calls trail schema pos)
      fun model => placesOf model.children := by
  unfold buildObject
  have hparts : registry.Leaves stage (schema.properties.mapM fun pair => do
      let property ← resolveProperty calls trail pos.pointer pos pair.1 pair.2
      pure { property with required := schema.required.contains pair.1 })
        fun properties => {id | ∃ property ∈ properties, id ∈ ({property.model.id} : Set ModelId)} := by
    refine leaves_mapM schema.properties fun pair hm => ?_
    have hproperty : registry.Leaves stage (resolveProperty calls trail pos.pointer pos pair.1 pair.2)
        fun property => {property.model.id} := fun roots =>
      (resolveProperty_tidies hc (hf.part (.member hm)) roots).weaken (fun _ h => h) fun _ _ h => h.1
    exact hproperty.bind_pure fun _ => subset_rfl
  refine hparts.bind_pure fun properties => ?_
  rintro id ⟨property, hm, rfl⟩
  exact ⟨property.model, List.mem_map_of_mem hm, rfl⟩

theorem buildArray_leaves (hc : calls.Tidies registry stage.unmet)
    (hf : ∀ items, schema.items = some items → registry.lookup.Undisputed stage.unfinished (.resolve items)) :
    registry.Leaves stage (buildArray calls trail schema pos)
      fun model => placesOf model.children := by
  unfold buildArray
  have hplaces : ∀ element : Resolved, ({element.id} : Set ModelId) ⊆ placesOf (Model.children
      (.collection (if schema.uniqueItems.getD false then .set element else .list element))) := by
    rintro element id rfl
    refine ⟨element, ?_, rfl⟩
    split <;> exact List.mem_singleton_self _
  cases hi : schema.items with
  | none => exact (freeForm_leaves pos.scope).bind_pure hplaces
  | some items => exact (hc.resolve stage.unfinished _ items _ (hf items hi)).bind_pure hplaces

theorem buildMap_leaves {value : SchemaNode} (hc : calls.Tidies registry stage.unmet)
    (hf : registry.lookup.Undisputed stage.unfinished (.resolve value)) :
    registry.Leaves stage (buildMap calls trail value pos)
      fun model => placesOf model.children := by
  unfold buildMap
  refine (hc.resolve stage.unfinished _ value _ hf).bind_pure fun element => ?_
  rintro id rfl
  exact ⟨element, List.mem_singleton_self _, rfl⟩

/-- The cases that a union has so far are used by it. -/
theorem unionCases_leaves (hc : calls.Tidies registry stage.unmet) (branches : List (SchemaNode × Nat))
    (hf : ∀ branch ∈ branches, SchemaNode.isNullSchema branch.1 = false →
      registry.lookup.Undisputed stage.unfinished (.resolve branch.1)) :
    ∀ (cases : List Case) (roots : Set ModelId), (telling registry).Runs
      (fun arena => arena.Within registry.lookup stage ∧
        arena.Tidy (roots ∪ placesOf (cases.map Case.model)))
      (unionCases calls trail schema pos branches cases)
      fun cases after => after.Tidy (roots ∪ placesOf (cases.map Case.model)) := by
  induction branches with
  | nil => exact fun cases roots => Regime.Runs.pure fun _ h => h.2
  | cons branch rest ih =>
    obtain ⟨node, index⟩ := branch
    have hrest := ih fun other ho => hf other (List.mem_cons_of_mem _ ho)
    intro cases roots
    rw [unionCases]
    split
    next => exact hrest cases roots
    next hreal =>
      have hnode := hf (node, index) List.mem_cons_self (by simpa using hreal)
      refine ((hc.resolve stage.unfinished _ node _ hnode).kept _).bind fun model => ?_
      refine (hrest _ roots).weaken (fun arena h => ⟨h.1, h.2.subset ?_⟩) fun _ _ h => h
      rintro id ((hr | ⟨old, hm, rfl⟩) | rfl)
      · exact .inl hr
      · exact .inr ⟨old, by simp [hm], rfl⟩
      · exact .inr ⟨model, by simp, rfl⟩

theorem buildUnion_leaves (hc : calls.Tidies registry stage.unmet)
    (hf : ∀ node ∈ schema.composition, node.isNullSchema = false →
      registry.lookup.Undisputed stage.unfinished (.resolve node)) :
    registry.Leaves stage (buildUnion calls trail schema pos)
      fun model => placesOf model.children := by
  intro roots
  unfold buildUnion
  have hbranches : ∀ branch ∈ schema.composition.zipIdx, SchemaNode.isNullSchema branch.1 = false →
      registry.lookup.Undisputed stage.unfinished (.resolve branch.1) :=
    fun branch hm => hf branch.1 (List.fst_mem_of_mem_zipIdx hm)
  refine ((unionCases_leaves hc _ hbranches [] roots).weaken (fun arena h => ?_)
    fun _ _ h => h).bind fun cases => ?_
  · exact ⟨h.1, h.2.subset Set.subset_union_left⟩
  · split
    next hnone =>
      refine Regime.Runs.pure fun arena h => ?_
      rw [List.isEmpty_iff.mp hnone] at h
      exact h
    next => exact Regime.Runs.pure fun arena h => h

/-- A property is put into an object, where none was made under its name before. -/
theorem insertProperty_enlarges (hc : calls.Tidies registry stage.unmet)
    (hf : registry.lookup.Undisputed stage.unfinished (.resolve node)) (hn : name ∉ brought) (roots : Set ModelId) :
    (telling registry).Runs
      (fun arena => arena.Within registry.lookup stage ∧ merged.Secured brought arena ∧
        arena.Tidy (roots ∪ merged.places))
      (do
        let property ← resolveProperty calls trail pointer pos name node
        pure (merged.insert property))
      fun result after => result.Secured
        (brought ∪ {other | other = name ∧ ∃ inner, node.bare = .inline inner}) after ∧
          after.Tidy (roots ∪ result.places) := by
  refine (((resolveProperty_tidies hc hf (roots ∪ merged.places)).frame
    (k := merged.Secured brought) fun hl hs => hs.leads hl.1).weaken
      (fun arena h => ⟨⟨h.1, h.2.2⟩, h.2.1⟩) fun _ _ h => h).bind fun property => Regime.Runs.pure ?_
  rintro arena ⟨⟨htidy, rfl, hplaced⟩, hsecured⟩
  refine ⟨(hsecured.subset Set.subset_union_left).insert ?_, hsecured.tidy_insert hn htidy⟩
  exact hplaced.imp_left fun hinner => .inr ⟨rfl, hinner⟩

/-- The text of an unfinished component is merged into an object. -/
theorem mergeUnfinished_enlarges (hc : calls.Tidies registry stage.unmet)
    (hf : registry.lookup.Undisputed stage.unfinished (.branch (.ref path)))
    (hnamed : Section.schemas.named? path = some name)
    (hp : registry.lookup.Pending stage.unfinished name)
    (hb : ∀ name ∈ brought, ¬ registry.lookup.Declares (.ref path) name) :
    registry.Enlarges stage (.ref path) merged brought
      (registry.mergeUnfinished calls trail path location pos merged) := by
  intro roots
  rw [mergeUnfinished_eq]
  refine Regime.Runs.lift_bind (fun written hw => ?_) fun _ _ _ _ => trivial
  obtain ⟨owner, schema⟩ := written
  obtain ⟨target, htarget, hwritten⟩ := Lookup.writtenAs_of_ok _ hw
  cases Option.some.inj (hnamed.symm.trans htarget)
  simp only
  split
  next => exact Regime.Runs.throw fun _ _ => trivial
  next =>
    split
    next => exact Regime.Runs.throw fun _ _ => trivial
    next hgood =>
      have hcompatible : schema.isObjectCompatible = true := by simpa using hgood
      have htext := hf.part (.base hnamed hp hwritten hcompatible)
      have hfresh : ∀ name ∈ brought, ¬ registry.lookup.Declares (.inline schema) name :=
        fun name hm hd => hb name hm ((hwritten.finds hnamed).mp hd)
      refine (hc.merge stage.unfinished _ schema _ pos merged brought hcompatible htext hfresh
        roots).weaken (fun _ h => h) fun result after h => ⟨h.1.subset ?_, h.2⟩
      exact Set.union_subset_union_right brought fun other hbrings =>
        .base hnamed hp hwritten hbrings

/-- A component whose model is still to come is unfinished, or another name for one that is. -/
theorem pending_of_unbuilt {id : ModelId} (ht : arena.Told registry.lookup)
    (hw : arena.Within registry.lookup stage) (hm : Entries.get? arena.memo name = some id)
    (hn : arena.model? id = none) : registry.lookup.Pending stage.unfinished name := by
  obtain ⟨owner, own, hstands, hplace⟩ := ht.stands name id hm
  exact ⟨owner, hw.unfinished owner ⟨own, id, hstands.owns, hplace, hn⟩, own, hstands⟩

theorem mergeComponent_enlarges (hc : calls.Tidies registry stage.unmet)
    (hf : registry.lookup.Undisputed stage.unfinished (.branch (.ref path)))
    (hb : ∀ name ∈ brought, ¬ registry.lookup.Declares (.ref path) name) :
    registry.Enlarges stage (.ref path) merged brought
      (registry.mergeComponent calls trail path location pos merged) := by
  intro roots
  unfold mergeComponent
  refine (((resolveRef_tidies hc (roots ∪ merged.places)).frame
    (k := fun arena => arena.Within registry.lookup stage ∧ merged.Secured brought arena)
      fun hl h => ⟨h.1.closes hl.1 hl.2.2, h.2.leads hl.1⟩).weaken
        (fun arena h => ⟨⟨h.1, h.2.2⟩, h.1, h.2.1⟩) fun _ _ h => h).bind fun target => ?_
  rintro arena hh ⟨⟨⟨name, hnamed, hm⟩, htidy⟩, hwithin, hsecured⟩
  refine Resolving.ensures_get_bind ?_
  have hrefl := (telling registry).refl arena
  have hwider : brought ⊆ brought ∪ {name | registry.lookup.Brings stage.unfinished (.ref path) name} :=
    Set.subset_union_left
  cases hmodel : arena.model? target.id with
  | none =>
    have hpending := pending_of_unbuilt hh.2 hwithin hm hmodel
    exact mergeUnfinished_enlarges hc hf hnamed hpending hb roots arena hh
      ⟨hwithin, hsecured, htidy⟩
  | some model =>
    cases model with
    | object object =>
      have htells : object.Tells registry.lookup (.ref path) := hh.2.tells_ref hnamed hm hmodel
      have hparts : ∀ property ∈ object.properties,
          property.name ∉ brought ∧ arena.Reaches ∅ property.model.id := by
        intro property hp
        have huses : arena.Uses target.id property.model.id :=
          ⟨_, hmodel, property.model, List.mem_map_of_mem hp, rfl⟩
        exact ⟨fun hbrought => hb _ hbrought ((htells.declares _).mp ⟨property, hp, rfl⟩),
          (Arena.Reaches.component hm).trans (.single huses)⟩
      obtain ⟨hresult, hleft⟩ := Merged.Secured.inherit object.properties hparts { merged with
        shaped := true, additional := merged.additional || object.additional } hsecured htidy
      exact Resolving.ensures_pure ⟨hh, hrefl, hresult.subset hwider, hleft⟩
    | freeForm => exact Resolving.ensures_pure ⟨hh, hrefl, hsecured.subset hwider, htidy⟩
    | _ => exact Resolving.ensures_throw trivial

theorem mergeBranch_enlarges (hc : calls.Tidies registry stage.unmet)
    (branch : SchemaNode × Nat) (hf : registry.lookup.Undisputed stage.unfinished (.branch branch.1))
    (hb : ∀ name ∈ brought, ¬ registry.lookup.Declares branch.1 name) :
    registry.Enlarges stage branch.1 merged brought
      (registry.mergeBranch calls trail pointer pos merged branch) := by
  obtain ⟨node, index⟩ := branch
  unfold mergeBranch
  cases node with
  | ref path => exact mergeComponent_enlarges hc hf hb
  | inline schema =>
    simp only
    split
    next =>
      exact fun roots => Regime.Runs.pure fun arena h =>
        ⟨h.2.1.subset Set.subset_union_left, h.2.2⟩
    next hreal =>
      split
      next hgood =>
        have hplain : schema.isAnnotation = false := by simpa using hreal
        exact hc.merge stage.unfinished _ schema _ pos merged brought hgood (hf.part (.nested hplain hgood)) hb
      next => exact fun roots => Regime.Runs.throw fun _ _ => trivial

/-- The branches of a schema are merged one after the other; none defines once more what was made
for an earlier one. -/
theorem mergeBranches_enlarges (hc : calls.Tidies registry stage.unmet)
    (hf : registry.lookup.Undisputed stage.unfinished (.merge schema))
    (hb : ∀ name ∈ brought, ¬ registry.lookup.Declares (.inline schema) name)
    (roots : Set ModelId) :
    (telling registry).Runs
      (fun arena => arena.Within registry.lookup stage ∧ merged.Secured brought arena ∧
        arena.Tidy (roots ∪ merged.places))
      (schema.allOf.zipIdx.foldlM (registry.mergeBranch calls trail pointer pos) merged)
      fun result after => after.Within registry.lookup stage ∧
        result.Secured (brought ∪ registry.lookup.broughtBy stage.unfinished schema.allOf) after ∧
          after.Tidy (roots ∪ result.places) := by
  have hapart : schema.allOf.zipIdx.Pairwise fun first second => ∀ name,
      registry.lookup.Brings stage.unfinished first.1 name → ¬ registry.lookup.Declares second.1 name := by
    have hcalm := hf.calm.branches
    rw [← List.zipIdx_map_fst 0 schema.allOf] at hcalm
    exact List.pairwise_map.mp hcalm
  refine (Regime.Runs.foldlM (i := fun done merged arena =>
    arena.Within registry.lookup stage ∧
      merged.Secured (brought ∪ registry.lookup.broughtBy stage.unfinished (done.map Prod.fst)) arena ∧
        arena.Tidy (roots ∪ merged.places)) schema.allOf.zipIdx ?_ merged).weaken (fun arena h => ?_)
          fun result after h => ?_
  · intro done branch rest hsplit merged
    have hmem : branch.1 ∈ schema.allOf :=
      List.fst_mem_of_mem_zipIdx (hsplit ▸ List.mem_append_right _ List.mem_cons_self)
    have hfresh : ∀ name ∈ brought ∪ registry.lookup.broughtBy stage.unfinished (done.map Prod.fst),
        ¬ registry.lookup.Declares branch.1 name := by
      rintro name (hbrought | ⟨node, hdone, hbrings⟩) hdeclares
      · exact hb name hbrought (.part hmem hdeclares)
      · obtain ⟨first, hfirst, rfl⟩ := List.mem_map.mp hdone
        rw [hsplit, List.pairwise_append] at hapart
        exact hapart.2.2 first hfirst branch List.mem_cons_self name hbrings hdeclares
    refine ((mergeBranch_enlarges hc branch (hf.part (.branch hmem)) hfresh roots).frame
      (k := fun arena => arena.Within registry.lookup stage) fun hl h => h.closes hl.1 hl.2.2).weaken
        (fun arena h => ⟨h, h.1⟩) fun result after h => ⟨h.2, ?_, h.1.2⟩
    rw [List.map_append, List.map_singleton, ← Lookup.broughtBy_concat, ← Set.union_assoc]
    exact h.1.1
  · simpa using h
  · rwa [List.zipIdx_map_fst] at h

/-- The properties of a schema are put into an object; they come after what was made before. -/
theorem ownProperties_enlarges (hc : calls.Tidies registry stage.unmet)
    (hf : registry.lookup.Undisputed stage.unfinished (.merge schema))
    (hb : ∀ name ∈ brought, name ∉ Entries.keys schema.properties) (roots : Set ModelId) :
    (telling registry).Runs
      (fun arena => arena.Within registry.lookup stage ∧ merged.Secured brought arena ∧
        arena.Tidy (roots ∪ merged.places))
      (schema.properties.foldlM (fun merged (name, node) => do
        let property ← resolveProperty calls trail pointer pos name node
        pure (merged.insert property)) merged)
      fun result after => result.Secured (brought ∪ Lookup.broughtAlong schema.properties) after ∧
        after.Tidy (roots ∪ result.places) := by
  refine (Regime.Runs.foldlM (i := fun done merged arena =>
    arena.Within registry.lookup stage ∧
      merged.Secured (brought ∪ Lookup.broughtAlong done) arena ∧
        arena.Tidy (roots ∪ merged.places)) schema.properties ?_ merged).weaken (fun arena h => ?_)
          fun result after h => h.2
  · rintro done ⟨name, node⟩ rest hsplit merged
    have hmem : (name, node) ∈ schema.properties :=
      hsplit ▸ List.mem_append_right _ List.mem_cons_self
    have hfresh : name ∉ brought ∪ Lookup.broughtAlong done := by
      rintro (hbrought | ⟨other, inner, hdone, _⟩)
      · exact hb name hbrought (List.mem_map_of_mem (f := Prod.fst) hmem)
      · have hkeys := hf.calm.keys
        rw [hsplit, Entries.keys, List.map_append, List.nodup_append] at hkeys
        exact hkeys.2.2 name (List.mem_map_of_mem (f := Prod.fst) hdone) name List.mem_cons_self rfl
    refine ((insertProperty_enlarges hc (hf.part (.member hmem)) hfresh roots).frame
      (k := fun arena => arena.Within registry.lookup stage) fun hl h => h.closes hl.1 hl.2.2).weaken
        (fun arena h => ⟨h, h.1⟩) fun result after h => ⟨h.2, ?_, h.1.2⟩
    rw [← Lookup.broughtAlong_concat, ← Set.union_assoc]
    exact h.1.1
  · simpa using h

theorem mergeSchema_enlarges (hc : calls.Tidies registry stage.unmet)
    (hf : registry.lookup.Undisputed stage.unfinished (.merge schema))
    (hb : ∀ name ∈ brought, ¬ registry.lookup.Declares (.inline schema) name) :
    registry.Enlarges stage (.inline schema) merged brought
      (registry.mergeSchema calls trail schema pointer pos merged) := by
  intro roots
  unfold mergeSchema
  refine (mergeBranches_enlarges hc hf hb roots).bind fun between => ?_
  have hfresh : ∀ name ∈ brought ∪ registry.lookup.broughtBy stage.unfinished schema.allOf,
      name ∉ Entries.keys schema.properties := by
    rintro name (hbrought | ⟨branch, hm, hbrings⟩) hkey
    · exact hb name hbrought (.own hkey)
    · exact hf.calm.own branch hm name hbrings hkey
  refine Regime.Runs.bind ((ownProperties_enlarges hc hf hfresh roots).weaken (fun _ h => h)
    fun _ _ h => h) fun result => Regime.Runs.pure fun arena h => ⟨h.1.subset ?_, h.2⟩
  rintro name ((hbrought | ⟨branch, hm, hbrings⟩) | ⟨node, inner, hm, hinner⟩)
  · exact .inl hbrought
  · exact .inr (.part hm hbrings)
  · exact .inr (.own hm hinner)

theorem buildAllOf_leaves (hc : calls.Tidies registry stage.unmet)
    (hf : schema.isObjectCompatible = true → registry.lookup.Undisputed stage.unfinished (.merge schema)) :
    registry.Leaves stage (registry.buildAllOf calls trail schema pos)
      fun model => placesOf model.children := by
  intro roots
  unfold buildAllOf
  split
  next => exact Regime.Runs.throw fun _ _ => trivial
  next hgood =>
    have hcompatible : schema.isObjectCompatible = true := by simpa using hgood
    have hmerge : registry.Enlarges stage (.inline schema) {} ∅
        (registry.mergeSchema calls trail schema pos.pointer pos {}) :=
      mergeSchema_enlarges hc (hf hcompatible) fun _ hnone => absurd hnone (Set.notMem_empty _)
    refine (((mergeSchema_tells hc.tells hcompatible).and (hmerge roots)).weaken (fun arena h => ?_)
      fun _ _ h => h).bind fun merged => ?_
    · exact ⟨Merged.formed_empty, h.1, Merged.secured_empty arena, h.2.subset Set.subset_union_left⟩
    · split
      next =>
        refine Regime.Runs.pure fun arena h => h.2.2.subset (Set.union_subset_union_right roots ?_)
        rintro id ⟨pair, hm, rfl⟩
        refine ⟨pair.2.model, ?_, rfl⟩
        simp only [Model.children, Merged.finish, List.map_map]
        exact List.mem_map_of_mem hm
      next hshapeless =>
        refine Regime.Runs.pure fun arena h => h.2.2.subset ?_
        rintro id (hr | ⟨pair, hm, _⟩)
        · exact .inl hr
        · exact absurd (h.1.1.shaped pair.1 (List.mem_map_of_mem (f := Prod.fst) hm)) hshapeless

/-- A model is built by the form of its schema. -/
theorem buildForm_leaves (hc : calls.Tidies registry stage.unmet)
    {several : Resolving Model} (hf : registry.lookup.Undisputed stage.unfinished (.build schema))
    (hs : registry.lookup.form schema = .several →
      registry.Leaves stage several fun model => placesOf model.children) :
    registry.Leaves stage (registry.buildForm calls several trail schema pos (registry.form schema))
      fun model => placesOf model.children := by
  have hform : registry.form schema = registry.lookup.form schema := rfl
  rw [hform]
  cases hform : registry.lookup.form schema with
  | merged => exact buildAllOf_leaves hc fun hgood => hf.part (.object (.inl ⟨hform, hgood⟩))
  | object => exact buildObject_leaves hc (hf.part (.object (.inr hform)))
  | array => exact buildArray_leaves hc fun items hi => hf.part (.items hform hi)
  | map value => exact buildMap_leaves hc (hf.part (.value hform))
  | union => exact buildUnion_leaves hc fun node hm hreal => hf.part (.case hform hm hreal)
  | several => exact hs hform
  | plain => exact leaves_lift _

theorem buildTypeUnion_leaves (hc : calls.Tidies registry stage.unmet)
    (hf : registry.lookup.Undisputed stage.unfinished (.build schema))
    (hform : registry.lookup.form schema = .several) :
    registry.Leaves stage (registry.buildTypeUnion calls trail schema pos)
      fun model => placesOf model.children := by
  have hcases : registry.Leaves stage
      (registry.typeCases calls trail schema pos schema.nonNullTypes.zipIdx)
      fun cases => {id | ∃ case ∈ cases, id ∈ ({Resolved.id (Case.model case)} : Set ModelId)} := by
    unfold typeCases
    refine leaves_mapM _ fun (type, index) hm => ?_
    have htype : registry.lookup.Undisputed stage.unfinished (.build (schema.only type)) :=
      hf.part (.type hform (List.fst_mem_of_mem_zipIdx hm))
    simp only [classify_eq_buildForm]
    refine place_leaves (buildForm_leaves hc htype fun _ => leaves_pure _)
      ((buildForm_tells hc.tells (Regime.Runs.pure fun arena _ object he => by cases he)).weaken
        (fun _ h => h) fun _ _ _ => trivial)
      (buildForm_steady hc.tells.steady (Regime.Runs.pure fun _ _ child hchild => ?_) _) pos.scope
      fun _ => rfl
    simp [Model.children] at hchild
  unfold buildTypeUnion
  refine hcases.bind_pure fun cases => ?_
  rintro id ⟨case, hm, rfl⟩
  exact ⟨case.model, List.mem_map_of_mem hm, rfl⟩

theorem buildSchema_leaves (hc : calls.Tidies registry stage.unmet)
    (hf : registry.lookup.Undisputed stage.unfinished (.build schema)) :
    registry.Leaves stage (registry.buildSchema calls trail schema pos)
      fun model => placesOf model.children := by
  rw [buildSchema_eq_buildForm]
  exact buildForm_leaves hc hf (buildTypeUnion_leaves hc hf)

theorem resolveNode_leaves (hc : calls.Tidies registry stage.unmet)
    (hf : registry.lookup.Undisputed stage.unfinished (.resolve node)) :
    registry.Leaves stage (registry.resolveNode calls trail node pos)
      fun resolved => {resolved.id} := by
  unfold resolveNode
  simp only [SchemaNode.unwrap_node]
  cases hbare : node.bare with
  | ref path =>
    exact fun roots => (resolveRef_tidies hc roots).weaken
      (fun _ h => h) fun _ _ h => h.2.subset Set.subset_union_left
  | inline schema =>
    exact place_leaves (hc.build stage.unfinished _ schema _ (hf.part (.inline hbare)))
      ((hc.tells.build _ _ _).weaken (fun _ h => h) fun _ _ _ => trivial)
      (hc.tells.steady.build _ _ _) pos.scope fun _ => rfl

theorem failing_tidies (unmet : Set String) : Calls.failing.Tidies registry unmet :=
  ⟨noCalls_tells, fun _ _ _ _ _ _ _ _ => Regime.Runs.throw fun _ _ => trivial,
    fun _ _ _ _ _ => leaves_throw _, fun _ _ _ _ _ => leaves_throw _,
    fun _ _ _ _ _ _ _ _ _ _ _ => Regime.Runs.throw fun _ _ => trivial⟩

/-- Calls nested to any depth leave no model unused where all components were met before. -/
theorem callsWithin_tidies (depth : Nat) :
    (registry.callsWithin noCalls depth).Tidies registry ∅ := by
  induction depth with
  | zero =>
    rw [callsWithin_zero]
    exact failing_tidies ∅
  | succ depth ih =>
    rw [callsWithin_succ]
    exact ⟨step_tells ih.tells, fun _ hm => absurd hm (Set.notMem_empty _),
      fun unfinished _ _ _ hf => resolveNode_leaves ih hf,
      fun unfinished _ _ _ hf => buildSchema_leaves ih hf,
      fun unfinished _ _ _ _ _ _ _ hf hb => mergeSchema_enlarges ih hf hb⟩

/-- Work goes on only where a component is entered as it may be. -/
theorem permit_runs {regime : Regime} {p : Arena → Prop}
    (hf : ∀ arena, p arena → regime.fails arena arena) :
    regime.Runs p (registry.permit allowed pos) fun _ arena =>
      p arena ∧ ∀ entry ∈ registry.entryAt? pos arena, entry ∈ allowed := by
  intro arena hh hp
  refine Resolving.ensures_get_bind ?_
  split
  next hall =>
    exact Resolving.ensures_pure ⟨hh, regime.refl arena, hp, by simpa [Option.all_eq_true] using hall⟩
  next => exact Resolving.ensures_throw (hf arena hp)

theorem permitted_tells (depth : Nat) :
    (registry.callsAfter (registry.permit allowed) depth).Tells registry := by
  induction depth with
  | zero => exact noCalls_tells
  | succ depth ih =>
    have hstep := step_tells ih
    refine ⟨⟨hstep.steady.resolve, fun trail schema pos => ?_, hstep.steady.merge⟩, hstep.resolve,
      fun trail schema pos => ?_, hstep.merge⟩
    · exact ((permit_runs fun arena _ => Arena.Grows.refl arena).weaken (fun _ h => h)
        fun _ _ _ => trivial).bind fun _ => hstep.steady.build trail schema pos
    · exact ((permit_runs fun _ _ => trivial).weaken (fun _ h => h)
        fun _ _ _ => trivial).bind fun _ => hstep.build trail schema pos

/-- Calls nested to any depth leave no model unused where components are entered only so that nothing
is disputed in them. -/
theorem permitted_tidies (hq : ∀ entry ∈ allowed, registry.lookup.Undisputed
      {name | name ∈ entry.unfinished} (.component entry.name)) (depth : Nat) :
    (registry.callsAfter (registry.permit allowed) depth).Tidies registry Set.univ := by
  induction depth with
  | zero => exact failing_tidies _
  | succ depth ih =>
    refine ⟨permitted_tells (depth + 1), fun name _ trail schema pos howns hpos roots => ?_,
      fun unfinished _ _ _ hf => resolveNode_leaves ih hf,
      fun unfinished trail schema pos hf roots => ?_,
      fun unfinished _ _ _ _ _ _ _ hf hb => mergeSchema_enlarges ih hf hb⟩
    · refine (permit_runs fun _ _ => trivial).bind fun _ arena hh ⟨⟨hmet, htidy⟩, hallowed⟩ => ?_
      have hentry : ⟨name, arena.unfinished⟩ ∈ allowed :=
        hallowed ⟨name, arena.unfinished⟩ (by simp [entryAt?, hpos])
      have hbuild : registry.Leaves ⟨{other | other ∈ arena.unfinished}, Set.univ⟩
          (registry.buildSchema _ trail schema pos) fun model => placesOf model.children :=
        buildSchema_leaves ih ((hq _ hentry).own howns)
      exact hbuild roots arena hh ⟨⟨fun _ hu => hu.mem, hmet⟩, htidy⟩
    · have hbuild : registry.Leaves ⟨unfinished, Set.univ⟩
          (registry.buildSchema _ trail schema pos) fun model => placesOf model.children :=
        buildSchema_leaves ih hf
      exact ((permit_runs fun _ _ => trivial).weaken (fun _ h => h) fun _ _ h => h.1).bind fun _ =>
        hbuild roots

/-- A component that is resolved leaves no model unused. -/
theorem component_tidies (hq : ∀ entry ∈ allowed, registry.lookup.Undisputed
      {name | name ∈ entry.unfinished} (.component entry.name)) (roots : Set ModelId) :
    (telling registry).Runs
      (fun arena => (∀ other, ¬ arena.Unfinished registry.lookup other) ∧ arena.Tidy roots)
      (registry.componentPermitted allowed name) fun _ after => after.Tidy roots := by
  have hcalls : (registry.callsAfter (registry.permit allowed) (registry.budget 1)).Tidies registry
      Stage.first.unmet := permitted_tidies hq _
  exact (componentId_tidies hcalls roots).weaken
    (fun _ h => ⟨⟨fun other ho => absurd ho (h.1 other), fun _ _ _ _ _ => Set.mem_univ _⟩, h.2⟩)
      fun _ _ h => h.2

/-- A node that is resolved when all components were met leaves no model unused. -/
theorem resolve_leaves (hu : registry.lookup.Undisputed ∅ (.resolve node)) :
    registry.Leaves .last (registry.resolve node pos) fun resolved => {resolved.id} :=
  (callsWithin_tidies (registry.budget node.size)).resolve ∅ {} node pos hu

end Registry

end ApiAtlas
