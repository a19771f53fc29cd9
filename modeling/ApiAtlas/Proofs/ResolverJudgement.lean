import ApiAtlas.Proofs.ArenaJudgement
import ApiAtlas.Proofs.PlainComponents
import ApiAtlas.Proofs.ResolverSoundness

namespace ApiAtlas

open Relation

namespace Registry

/-- What comes of a merge: all that is asked for is met, and what is given is added. -/
def Adds (registry : Registry) (work : Work) (merged result : Merged) (after : Arena) : Prop :=
  after.Supplies registry.lookup (registry.lookup.Needs work) ∧ result.Keyed ∧
    ∀ fact, result.Has fact ↔ merged.Has fact ∨ registry.lookup.Gives work fact

/-- Inside of the component `top`, where calls may be nested `limit` deep, the model of a schema is
built just where all that the schema asks for can be had. -/
def Builds (registry : Registry) (limit : Nat) (trail : Trail) (top : String) (schema : Schema)
    (build : Resolving Model) : Prop :=
  (registry.meeting (registry.lookup.Needs (.build schema))).Runs
    (Inside registry limit trail top (registry.lookup.Needs (.build schema)) (2 * schema.size)) build
    fun model after => after.Supplies registry.lookup (registry.lookup.Needs (.build schema)) ∧
      model.Shows registry.lookup schema

/-- Work that adds to an object does so just where all that it asks for can be had. -/
def Merges (registry : Registry) (limit : Nat) (trail : Trail) (top : String) (work : Work)
    (weight : Nat) (merged : Merged) (merge : Resolving Merged) : Prop :=
  (registry.meeting (registry.lookup.Needs work)).Runs
    (fun arena => merged.Keyed ∧
      Inside registry limit trail top (registry.lookup.Needs work) weight arena)
    merge fun result after => registry.Adds work merged result after

end Registry

/-- Calls that come to a result just where all that is asked for can be had, if they may be nested
`limit` deep. -/
structure Calls.Decides (registry : Registry) (limit : Nat) (calls : Calls) : Prop where
  steady : calls.Steady registry
  follow : ∀ trail path pos, (registry.meeting (· = .refer path)).Runs
    (fun arena => ∀ name, Section.schemas.named? path = some name →
      Before registry limit trail name 3 arena)
    (calls.resolve trail (.ref path) pos) fun _ after => after.Meets registry.lookup (.refer path)
  resolve : ∀ trail node pos top, (registry.meeting (registry.lookup.Needs (.resolve node))).Runs
      (Inside registry limit trail top (registry.lookup.Needs (.resolve node)) (2 * node.size + 1))
      (calls.resolve trail node pos)
      fun _ after => after.Supplies registry.lookup (registry.lookup.Needs (.resolve node))
  build : ∀ trail schema pos top,
    registry.Builds limit trail top schema (calls.build trail schema pos)
  merge : ∀ trail schema pointer pos merged top,
    registry.Merges limit trail top (.merge schema) (2 * schema.size) merged
      (calls.merge trail schema pointer pos merged)

namespace Registry

variable {registry : Registry} {calls : Calls} {limit : Nat} {trail : Trail} {schema : Schema}
  {node body : SchemaNode} {pos : Position} {name path pointer location reference top : String}
  {merged : Merged} {arena : Arena}

/-- A component that is another name. -/
theorem componentId_alias_judges (hc : calls.Decides registry limit)
    (hs : arena.Sound registry) (hj : arena.Judged registry.lookup)
    (he : Before registry limit trail name 2 arena)
    (hb : Entries.get? registry.schemas name = some body) (hbare : body.bare = .ref path)
    (hf : name ∉ arena.failed) (ht : name ∉ trail.aliases) :
    (do
      let target ← calls.resolve { trail with aliases := trail.aliases ++ [name] } (.ref path) pos
      modify fun arena => arena.remember name target.id
      pure target.id : Resolving ModelId).Ensures arena
        (fun _ after => after.Judged registry.lookup ∧ arena.Closes registry.lookup after)
        fun _ => ¬ registry.lookup.Good name := by
  have hpre : ∀ target, Section.schemas.named? path = some target →
      Before registry limit { trail with aliases := trail.aliases ++ [name] } target 3 arena := by
    intro target hn
    have halias : registry.lookup.Alias name target := ⟨body, path, hb, hbare, hn⟩
    have hroom := he.room
    have hdepth := depth_follow arena hb ht
    refine ⟨by omega, fun other ho => ?_, fun other ho => (he.reached other ho).tail halias.leads⟩
    rcases List.mem_append.mp ho with hold | hnew
    · exact (he.followed other hold).tail halias
    · exact List.mem_singleton.mp hnew ▸ .single halias
  refine Resolving.ensures_bind (((hc.follow _ path pos arena ⟨hs, hj⟩ hpre).and
    (hc.steady.resolve _ (.ref path) pos arena hs trivial)).weaken (fun _ _ h => h) ?_) ?_
  · intro after hfail
    refine Lookup.not_good_of_fails (hfail.1.mono ?_)
    rintro demand rfl
    exact .body hb (.refer hbare)
  · rintro target after ⟨⟨hjudged, hl, _⟩, hsound, _, hholds, hanswers⟩
    obtain ⟨other, id, rfl, hname⟩ := hanswers.of_ref (SchemaNode.bare_ref path)
    have halias : registry.lookup.Alias name other := ⟨body, path, hb, hbare, hname⟩
    have hgrows := (hsound.remember_alias halias hholds (hl.1.failed ▸ hf)).2
    refine Resolving.ensures_modify_bind (Resolving.ensures_pure ⟨?_, ?_⟩)
    · exact hjudged.2.remember_alias hgrows halias hholds
    · exact hl.2.2.trans hgrows (Arena.closes_remember_alias halias)

/-- A component with a body of its own. -/
theorem componentId_body_judges (hc : calls.Decides registry limit)
    (hs : arena.Sound registry) (hj : arena.Judged registry.lookup)
    (he : Before registry limit trail name 2 arena)
    (hb : Entries.get? registry.schemas name = some body) (hbare : body.bare = .inline schema)
    (hm : Entries.get? arena.memo name = none) (hf : name ∉ arena.failed) :
    (do
      let id ← Resolving.reserve []
      modify fun arena => arena.remember name id
      let model ← calls.build {} schema pos
      Resolving.fill id model
      pure id : Resolving ModelId).Ensures arena
        (fun _ after => after.Judged registry.lookup ∧ arena.Closes registry.lookup after)
        fun _ => ¬ registry.lookup.Good name := by
  have howns : registry.lookup.Own name schema := ⟨body, hb, hbare⟩
  have hlt : arena.slots.length < (arena.reserve []).2.slots.length :=
    Arena.lt_reserve arena []
  have hnone : (arena.reserve []).2.model? arena.slots.length = none :=
    Arena.model?_reserve_self arena []
  have hsound : ((arena.reserve []).2.remember name arena.slots.length).Sound registry :=
    (hs.reserve []).remember hm hf hlt fun target ha => absurd ha howns.not_alias
  have hjudged := (hj.reserve []).remember_own hm hf howns hnone
  have hinside : Inside registry limit {} name (registry.lookup.Needs (.build schema))
      (2 * schema.size) ((arena.reserve []).2.remember name arena.slots.length) := by
    have hroom := he.room
    have hdepth := depth_enter hb hm trail arena.slots.length []
    have hsize : schema.size ≤ body.size := by
      have hle := body.size_bare
      rwa [hbare] at hle
    refine ⟨by omega, fun demand => howns.needs_iff.mpr, rfl, fun other ho => by simp at ho, ?_⟩
    rintro other ⟨own, id, hown, hid, hmodel⟩
    rcases Arena.get?_remember hid with rfl | hold
    · exact .refl
    · refine he.reached other ⟨own, id, hown, hold, ?_⟩
      rwa [Arena.model?_remember, Arena.model?_reserve] at hmodel
  refine Resolving.ensures_reserve_bind (Resolving.ensures_modify_bind (Resolving.ensures_bind
    ((hc.build {} schema pos name _ ⟨hsound, hjudged⟩ hinside).weaken (fun _ _ h => h) ?_) ?_))
  · exact fun after hfail => Lookup.not_good_of_fails (hfail.mono fun _ => howns.needs_iff.mpr)
  · rintro model after ⟨hafter, hl, hsupplies, hshows⟩
    refine Resolving.ensures_fill_bind (Resolving.ensures_pure
      ⟨hafter.2.fill (hl.1.reserved rfl).1 fun owner own hown hplace => ?_, hl.2.2.built hl.1⟩)
    cases hl.2.2.owner_eq hl.1 hs hown hplace
    exact hown.unique howns ▸ ⟨hshows, hsupplies⟩

/-- A component comes to a result just where it is good. -/
theorem componentId_decides (hc : calls.Decides registry limit) :
    (deciding registry (¬ registry.lookup.Good name)).Runs (Before registry limit trail name 2)
      (registry.componentId calls trail name reference location)
      fun id after => Entries.get? after.memo name = some id := by
  intro arena hh he
  have hjudges : (registry.componentId calls trail name reference location).Ensures arena
      (fun _ after => after.Judged registry.lookup ∧ arena.Closes registry.lookup after)
      fun _ => ¬ registry.lookup.Good name := by
    rw [componentId_eq]
    refine Resolving.ensures_get_bind ?_
    cases hm : Entries.get? arena.memo name with
    | some id => exact Resolving.ensures_pure ⟨hh.2, Arena.Closes.refl arena⟩
    | none =>
      simp only
      split
      next hf => exact Resolving.ensures_throw (hh.2.failed name (by simpa using hf))
      next hf =>
        have hf' : name ∉ arena.failed := by simpa using hf
        split
        next ht =>
          -- The name was followed on the way here: it leads back to itself, and nothing good does.
          have hself := he.followed name (by simpa using ht)
          exact Resolving.ensures_throw fun hg =>
            not_transGen_of_acc hg.acc (Lookup.under_of_alias hself)
        next ht =>
          have ht' : name ∉ trail.aliases := by simpa using ht
          cases hb : Entries.get? registry.schemas name with
          | none =>
            exact Resolving.ensures_throw
              (Lookup.not_good_of_fails (Lookup.fails_never (.missing hb)))
          | some body =>
            simp only [SchemaNode.unwrap_node]
            cases hbare : body.bare with
            | ref path => exact componentId_alias_judges hc hh.1 hh.2 he hb hbare hf' ht'
            | inline schema => exact componentId_body_judges hc hh.1 hh.2 he hb hbare hm hf'
  refine ((componentId_steady hc.steady arena hh.1 trivial).and hjudges).weaken ?_ fun _ hl => hl.2
  rintro id after ⟨⟨hsound, hl, hm⟩, hjudged, hcloses⟩
  exact ⟨⟨hsound, hjudged⟩, ⟨hl.1, hl.2, hcloses⟩, hm⟩

theorem resolveRef_decides (hc : calls.Decides registry limit) :
    (registry.meeting (· = .refer path)).Runs
      (fun arena => ∀ name, Section.schemas.named? path = some name →
        Before registry limit trail name 2 arena)
      (registry.resolveRef calls trail path location)
      fun resolved after => ∃ name id, resolved = .ref name id ∧
        Section.schemas.named? path = some name ∧ Entries.get? after.memo name = some id := by
  unfold resolveRef
  refine Regime.Runs.lift_bind (fun name hn => ?_) fun error arena hn _ => ?_
  · rw [Section.parseName_eq_ok_iff] at hn
    have hrun : (registry.meeting (· = .refer path)).Runs
        (Before registry limit trail name 2) (registry.componentId calls trail name path location)
        fun id after => Entries.get? after.memo name = some id :=
      decides_mono (componentId_decides hc) fun hg => Lookup.fails_of_not_good (.inl rfl) hn hg
    refine (hrun.weaken (fun arena h => h name hn) fun _ _ h => h).bind fun id => ?_
    exact Regime.Runs.pure fun arena hm => ⟨name, id, rfl, hn, hm⟩
  · refine Lookup.fails_of_unnamed (.inl rfl) ?_
    rw [Section.parseName_eq] at hn
    split at hn
    next => cases hn
    next hnone => exact hnone

/-- A place is reserved, a model is built, and the model is put at the place. -/
theorem place_decides {α : Type} {build : Resolving Model} {answer : ModelId → α} {fails : Prop}
    {needs : Demand → Prop} {weight : Nat}
    (hb : (deciding registry fails).Runs (Inside registry limit trail top needs weight) build
      fun model after => after.Supplies registry.lookup needs ∧ model.Shows registry.lookup schema)
    (hs : (growing registry).Runs (fun _ => True) build Model.Held) (scope : List String) :
    (deciding registry fails).Runs (Inside registry limit trail top needs weight)
      (do
        let id ← Resolving.reserve scope
        let model ← build
        Resolving.fill id model
        pure (answer id))
      fun _ after => after.Supplies registry.lookup needs := by
  intro arena hh hinside
  have hjudges : (do
      let id ← Resolving.reserve scope
      let model ← build
      Resolving.fill id model
      pure (answer id) : Resolving α).Ensures arena
        (fun _ after => after.Judged registry.lookup ∧ arena.Closes registry.lookup after ∧
          after.Supplies registry.lookup needs) fun _ => fails := by
    refine Resolving.ensures_reserve_bind (Resolving.ensures_bind
      ((hb _ ⟨hh.1.reserve scope, hh.2.reserve scope⟩ (hinside.reserve scope)).weaken
        (fun _ _ h => h) fun _ hl => hl) ?_)
    rintro model after ⟨hafter, hl, hsupplies, -⟩
    have hid : arena.slots.length < after.slots.length := (hl.1.reserved rfl).1
    refine Resolving.ensures_fill_bind (Resolving.ensures_pure ⟨hafter.2.fill hid ?_, ?_, hsupplies⟩)
    · exact fun owner own hown hplace => absurd hplace (hl.2.2.vacant hl.1 hh.1 hown)
    · exact fun owner own id hown hplace hmodel => (hl.2.2.of_fill hid hown hplace hmodel).2
  refine ((place_steady hs scope arena hh.1 trivial).and hjudges).weaken ?_ fun _ hl => hl.2
  rintro a after ⟨⟨hsound, hl, _⟩, hjudged, hcloses, hsupplies⟩
  exact ⟨⟨hsound, hjudged⟩, ⟨hl.1, hl.2, hcloses⟩, hsupplies⟩

theorem push_decides {fails : Prop} {model : Model} (hm : model.children = [])
    (scope : List String) :
    (deciding registry fails).Runs (fun _ => True) (Resolving.push model scope)
      fun _ _ => True := by
  intro arena hh _
  obtain ⟨hsound, hgrows, hfilled, _⟩ := hh.1.push scope hm
  have hlt : arena.slots.length < (arena.reserve scope).2.slots.length :=
    Arena.lt_reserve arena scope
  have hjudged : ((arena.reserve scope).2.fill arena.slots.length model).Judged registry.lookup :=
    (hh.2.reserve scope).fill hlt fun owner own _ hplace =>
      absurd (hh.1.lt_of_get? hplace) (Nat.lt_irrefl _)
  exact ⟨⟨hsound, hjudged⟩, ⟨hgrows, hfilled, fun _ _ _ _ hplace _ => hplace⟩, trivial⟩

theorem freeForm_decides {fails : Prop} (scope : List String) :
    (deciding registry fails).Runs (fun _ => True) (Resolving.freeForm scope) fun _ _ => True :=
  (push_decides rfl scope).bind fun _ => Regime.Runs.pure fun _ _ => trivial

section

variable {needs : Demand → Prop} {weight : Nat}

/-- A node is resolved as a part of larger work. -/
theorem resolve_part_decides (hc : calls.Decides registry limit)
    (hn : ∀ demand, registry.lookup.Needs (.resolve node) demand → needs demand)
    (hw : node.size < weight) :
    (registry.meeting needs).Runs (Inside registry (limit + 1) trail top needs (2 * weight))
      (calls.resolve trail node pos)
      fun _ after => after.Supplies registry.lookup (registry.lookup.Needs (.resolve node)) :=
  (decides_mono (hc.resolve trail node pos top) fun h => h.mono hn).weaken
    (fun _ h => h.part hn (by omega)) fun _ _ h => h

theorem resolveProperty_decides (hc : calls.Decides registry limit)
    (hn : ∀ demand, registry.lookup.Needs (.resolve node) demand → needs demand)
    (hw : node.size < weight) :
    (registry.meeting needs).Runs (Inside registry (limit + 1) trail top needs (2 * weight))
      (resolveProperty calls trail pointer pos name node)
      fun property after =>
        after.Supplies registry.lookup (registry.lookup.Needs (.resolve node)) ∧
          property.name = name ∧ property.required = false := by
  unfold resolveProperty
  exact (resolve_part_decides hc hn hw).bind fun model =>
    Regime.Runs.pure fun arena hm => ⟨hm, rfl, rfl⟩

end

/-- An object of the properties of a schema is what the schema makes known. -/
theorem shows_of_properties {object : ObjectModel}
    (hf : registry.lookup.form schema = .object)
    (hp : List.Forall₂ (fun (pair : String × SchemaNode) (property : Property) =>
      property.name = pair.1 ∧ property.required = schema.required.contains pair.1)
        schema.properties object.properties) :
    (Model.object object).Shows registry.lookup schema := by
  have hmirrors := ObjectModel.mirrors_of_properties hp
  have hasks : ∀ name, object.Has (.asks name) ↔ schema.Owns (.asks name) := by
    intro name
    constructor
    · rintro ⟨property, hm, rfl, hrequired⟩
      exact ⟨hmirrors.named property hm, (hmirrors.flagged property hm).mp hrequired⟩
    · rintro ⟨hkey, hrequired⟩
      obtain ⟨property, hm, rfl⟩ := hmirrors.covered name hkey
      exact ⟨property, hm, rfl, (hmirrors.flagged property hm).mpr hrequired⟩
  refine ⟨?_, fun _ => ⟨object, rfl⟩, ?_⟩
  · rw [Lookup.free_build, hf]
    simp [Lookup.FormFree]
  · intro other ho
    cases ho
    refine ⟨fun property hm h => (hmirrors.flagged property hm).mpr ((hasks _).mp h).2,
      fun fact => ?_⟩
    rw [Lookup.gives_build, hf]
    cases fact with
    | asks name => exact hasks name
    | shaped => exact Iff.rfl
    | declares name =>
      constructor
      · rintro ⟨property, hm, rfl⟩
        exact hmirrors.named property hm
      · exact hmirrors.covered name

theorem buildObject_decides (hc : calls.Decides registry limit)
    (hf : registry.lookup.form schema = .object) :
    registry.Builds (limit + 1) trail top schema (buildObject calls trail schema pos) := by
  unfold buildObject
  refine Regime.Runs.bind (Regime.Runs.mapM (q := fun (pair : String × SchemaNode)
    (property : Property) after =>
      after.Supplies registry.lookup (registry.lookup.Needs (.resolve pair.2)) ∧
        property.name = pair.1 ∧ property.required = schema.required.contains pair.1) _
    Inside.leads (fun hl h => h.imp (Arena.Supplies.grows hl.1) id) fun (name, node) hm => ?_)
    fun properties => ?_
  · have hneeds : ∀ demand, registry.lookup.Needs (.resolve node) demand →
        registry.lookup.Needs (.build schema) demand := fun demand => .property hf hm
    exact (resolveProperty_decides hc hneeds (SchemaOf.size_property hm)).bind fun property =>
      Regime.Runs.pure fun arena h => ⟨h.1, h.2.1, rfl⟩
  · refine Regime.Runs.pure fun arena h => ⟨fun demand hd => ?_, ?_⟩
    · rw [Lookup.needs_build, hf] at hd
      obtain ⟨pair, hm, hinner⟩ := hd
      obtain ⟨property, _, hsupplies, _⟩ := forall₂_of_mem_right h.flip hm
      exact hsupplies demand hinner
    · exact shows_of_properties hf (h.imp fun _ _ hq => hq.2)

/-- A model of items, of members or of types shows nothing. -/
theorem shows_of_parts {model : Model} (hm : ∀ object, model ≠ .object object)
    (hn : model ≠ .freeForm) (hf : registry.lookup.form schema = .array ∨
      (∃ value, registry.lookup.form schema = .map value) ∨
        registry.lookup.form schema = .several) : model.Shows registry.lookup schema := by
  have hnone : ∀ form, registry.lookup.form schema = form →
      ¬ registry.lookup.FormFree schema form → ¬ registry.lookup.FormGives schema .shaped form →
        model.Shows registry.lookup schema := by
    rintro form rfl hfree hshaped
    refine Model.shows_of_unshaped hm ⟨fun h => absurd h hn, fun h => ?_⟩ fun h => ?_
    · exact absurd (Lookup.free_build.mp h) hfree
    · exact hshaped (Lookup.gives_build.mp h)
  rcases hf with hf | ⟨value, hf⟩ | hf
  · exact hnone _ hf id id
  · exact hnone _ hf id id
  · exact hnone _ hf id id

theorem buildArray_decides (hc : calls.Decides registry limit)
    (hf : registry.lookup.form schema = .array) :
    registry.Builds (limit + 1) trail top schema (buildArray calls trail schema pos) := by
  have hshows : ∀ collection, (Model.collection collection).Shows registry.lookup schema :=
    fun collection => shows_of_parts nofun nofun (.inl hf)
  unfold buildArray
  cases hi : schema.items with
  | none =>
    refine ((freeForm_decides pos.scope).weaken (fun _ _ => trivial) fun _ _ h => h).bind
      fun element => Regime.Runs.pure fun arena _ => ⟨fun demand hd => ?_, hshows _⟩
    rw [Lookup.needs_build, hf] at hd
    obtain ⟨node, hn, _⟩ := hd
    cases hi.symm.trans hn
  | some node =>
    refine (resolve_part_decides hc (fun demand => .items hf hi) (SchemaOf.size_items hi)).bind
      fun element => Regime.Runs.pure fun arena h => ⟨fun demand hd => ?_, hshows _⟩
    rw [Lookup.needs_build, hf] at hd
    obtain ⟨other, hn, hinner⟩ := hd
    cases hi.symm.trans hn
    exact h demand hinner

theorem buildMap_decides {value : SchemaNode} (hc : calls.Decides registry limit)
    (hf : registry.lookup.form schema = .map value) :
    registry.Builds (limit + 1) trail top schema (buildMap calls trail value pos) := by
  unfold buildMap
  refine (resolve_part_decides hc (fun demand => .value hf)
    (SchemaOf.size_additional (form_eq_map hf))).bind fun element =>
      Regime.Runs.pure fun arena h => ⟨fun demand hd => ?_, ?_⟩
  · rw [Lookup.needs_build, hf] at hd
    exact h demand hd
  · exact shows_of_parts nofun nofun (.inr (.inl ⟨value, hf⟩))

theorem unionCases_decides (hc : calls.Decides registry limit)
    (hf : registry.lookup.form schema = .union) (branches : List (SchemaNode × Nat)) :
    ∀ cases : List Case, (∀ branch ∈ branches, branch.1 ∈ schema.composition) →
      (registry.meeting (registry.lookup.Needs (.build schema))).Runs
        (Inside registry (limit + 1) trail top (registry.lookup.Needs (.build schema))
          (2 * schema.size))
        (unionCases calls trail schema pos branches cases)
        fun result after =>
          (∀ branch ∈ branches, branch.1.isNullSchema = false →
            after.Supplies registry.lookup (registry.lookup.Needs (.resolve branch.1))) ∧
          (result = [] ↔ cases = [] ∧ ∀ branch ∈ branches, branch.1.isNullSchema = true) := by
  induction branches with
  | nil =>
    intro cases _
    exact Regime.Runs.pure fun _ _ => ⟨by simp, by simp⟩
  | cons branch rest ih =>
    obtain ⟨node, index⟩ := branch
    intro cases hb
    have hrest := fun other ho => hb other (List.mem_cons_of_mem _ ho)
    rw [unionCases]
    split
    next hnull =>
      refine (ih cases hrest).weaken (fun _ h => h) fun result after h => ⟨?_, ?_⟩
      · intro branch hm hreal
        rcases List.mem_cons.mp hm with rfl | ho
        · exact absurd (hnull.symm.trans hreal) (by simp)
        · exact h.1 branch ho hreal
      · rw [h.2]
        simp [hnull]
    next hreal =>
      have hreal' : node.isNullSchema = false := by simpa using hreal
      have hlisted : node ∈ schema.composition := hb _ List.mem_cons_self
      refine ((resolve_part_decides hc (fun demand => .case hf hlisted hreal')
        (SchemaOf.size_composition hlisted)).kept Inside.leads).bind fun model => ?_
      refine (((ih _ hrest).frame (k := fun arena => arena.Supplies registry.lookup
        (registry.lookup.Needs (.resolve node))) fun hl => Arena.Supplies.grows hl.1).weaken
          (fun _ h => ⟨h.2, h.1⟩) fun result after h => ⟨?_, ?_⟩)
      · intro branch hm hr
        rcases List.mem_cons.mp hm with rfl | ho
        · exact h.2
        · exact h.1.1 branch ho hr
      · rw [h.1.2]
        simp [hreal']

theorem buildUnion_decides (hc : calls.Decides registry limit)
    (hf : registry.lookup.form schema = .union) :
    registry.Builds (limit + 1) trail top schema (buildUnion calls trail schema pos) := by
  have hshaped : ¬ registry.lookup.Gives (.build schema) .shaped := by
    rw [Lookup.gives_build, hf]
    exact id
  have hfree : registry.lookup.Free (.build schema) ↔
      ∀ branch ∈ schema.composition.zipIdx, branch.1.isNullSchema = true := by
    rw [Lookup.free_build, hf]
    refine ⟨fun h branch hm => h _ (List.fst_mem_of_mem_zipIdx hm), fun h node hm => ?_⟩
    obtain ⟨index, hi⟩ := exists_mem_zipIdx hm
    exact h _ hi
  have hsupplies : ∀ arena : Arena, (∀ branch ∈ schema.composition.zipIdx,
      branch.1.isNullSchema = false →
        arena.Supplies registry.lookup (registry.lookup.Needs (.resolve branch.1))) →
      arena.Supplies registry.lookup (registry.lookup.Needs (.build schema)) := by
    intro arena h demand hd
    rw [Lookup.needs_build, hf] at hd
    obtain ⟨node, hm, hreal, hinner⟩ := hd
    obtain ⟨index, hi⟩ := exists_mem_zipIdx hm
    exact h _ hi hreal demand hinner
  unfold buildUnion
  refine (unionCases_decides hc hf _ [] fun branch hm =>
    List.fst_mem_of_mem_zipIdx hm).bind fun cases => ?_
  split
  next hempty =>
    refine Regime.Runs.pure fun arena h => ⟨hsupplies arena h.1, ?_⟩
    have hall := (h.2.mp (List.isEmpty_iff.mp hempty)).2
    exact Model.shows_of_unshaped (by simp) ⟨fun _ => hfree.mpr hall, fun _ => rfl⟩ hshaped
  next hempty =>
    refine Regime.Runs.pure fun arena h => ⟨hsupplies arena h.1, ?_⟩
    refine Model.shows_of_unshaped (by simp) ⟨by simp, fun hn => ?_⟩ hshaped
    exact absurd (List.isEmpty_iff.mpr (h.2.mpr ⟨rfl, hfree.mp hn⟩)) hempty

theorem plainModel_decides {p : Arena → Prop} (hf : registry.lookup.form schema = .plain) :
    (registry.meeting (registry.lookup.Needs (.build schema))).Runs p
      (liftM (registry.plainModel schema pos))
      fun model after => after.Supplies registry.lookup (registry.lookup.Needs (.build schema)) ∧
        model.Shows registry.lookup schema := by
  refine Regime.Runs.lift (fun model arena hm _ => ⟨fun demand hd => ?_, ?_⟩) fun error _ he _ => ?_
  · rw [Lookup.needs_build, hf] at hd
    obtain ⟨_, other, error, hbad⟩ := hd
    obtain ⟨error', he⟩ := plainModel_error hbad pos
    cases (show registry.plainModel schema pos = .error error' from he).symm.trans hm
  · refine Model.shows_of_unshaped (plainModel_ne_object hm) ?_ ?_
    · rw [Lookup.free_build, hf]
      constructor
      · rintro rfl
        exact ⟨pos, hm⟩
      · rintro ⟨other, ho⟩
        have hfree : registry.plainModel schema pos = .ok .freeForm := plainModel_freeForm ho pos
        exact Except.ok.inj (hm.symm.trans hfree)
    · rw [Lookup.gives_build, hf]
      exact id
  · exact Lookup.fails_never (.plain hf he)

/-- What is extended while it is unfinished leads to the component that is being built and that
extends it, so it is plain. -/
theorem base_of_unfinished {id : ModelId} {weight : Nat} (ho : registry.lookup.Orderly)
    (hj : arena.Judged registry.lookup)
    (h : Inside registry limit trail top (registry.lookup.Needs (.branch (.ref path))) weight arena)
    (hn : Section.schemas.named? path = some name) (hm : Entries.get? arena.memo name = some id)
    (hmodel : arena.model? id = none) :
    ∃ owner schema, registry.lookup.WrittenAs name owner schema ∧ schema.peel? = none ∧
      schema.isObjectCompatible = true ∧ registry.lookup.form schema ≠ .plain ∧
      ∀ property, registry.lookup.Gives (.merge schema) (.asks property) →
        registry.lookup.Gives (.merge schema) (.declares property) := by
  obtain ⟨owner, schema, hstands, hplace⟩ := hj.stands name id hm
  have hextends : Lookup.Extends (registry.lookup.Needs (.component top)) name :=
    ⟨path, h.asked _ .base, hn⟩
  have htop : ReflTransGen registry.lookup.Leads owner top :=
    h.reached owner ⟨schema, id, hstands.owns, hplace, hmodel⟩
  obtain ⟨owner', schema', hwritten, hpeel, hcompatible, hasks⟩ :=
    ho top name hextends (hstands.leads.trans htop)
  obtain ⟨rfl, rfl⟩ := hstands.unique (hwritten.stands hpeel)
  exact ⟨owner, schema, hwritten, hpeel, hcompatible,
    Lookup.form_ne_plain hstands hextends htop, hasks⟩

/-- The text of what is extended is merged inside of the component that the text belongs to. -/
theorem inside_inherit {owner : String}
    (h : Inside registry limit trail top (registry.lookup.Needs (.branch (.ref path))) 2 arena)
    (hn : Section.schemas.named? path = some name)
    (hstands : registry.lookup.Stands name owner schema)
    (hfound : registry.lookup.find owner = some (.inline schema))
    (hneeds : ∀ demand, registry.lookup.Needs (.merge schema) demand →
      registry.lookup.Needs (.component owner) demand) (hnot : owner ∉ trail.inheriting) :
    Inside registry limit { trail with inheriting := trail.inheriting ++ [owner] } owner
      (registry.lookup.Needs (.merge schema)) (2 * schema.size) arena := by
  have hextends : Lookup.Extends (registry.lookup.Needs (.component top)) name :=
    ⟨path, h.asked _ .base, hn⟩
  have hunder : ReflTransGen registry.lookup.Under owner top :=
    hstands.under.tail (.inr hextends)
  have hroom := h.room
  have hdepth := depth_inherit arena hfound hnot
  refine ⟨by omega, hneeds, h.followed, fun other hother => ?_, fun other hu => ?_⟩
  · rcases List.mem_append.mp hother with hold | hnew
    · exact hunder.trans (h.inherited other hold)
    · exact List.mem_singleton.mp hnew ▸ .refl
  · exact ((h.reached other hu).tail (.of_extends hextends)).trans hstands.leads

/-- The text of an unfinished component is merged as its model would be. -/
theorem mergeUnfinished_decides (hc : calls.Decides registry limit)
    (ho : registry.lookup.Orderly) {id : ModelId}
    (hn : Section.schemas.named? path = some name) :
    (registry.meeting (registry.lookup.Needs (.branch (.ref path)))).Runs
      (fun arena => (merged.Keyed ∧ Inside registry limit trail top
        (registry.lookup.Needs (.branch (.ref path))) 2 arena) ∧
          Entries.get? arena.memo name = some id ∧ arena.model? id = none)
      (registry.mergeUnfinished calls trail path location pos merged)
      fun result after => registry.Adds (.branch (.ref path)) merged result after := by
  intro arena hh ⟨⟨hkeyed, hinside⟩, hm, hmodel⟩
  obtain ⟨owner, schema, hwritten, hpeel, hcompatible, hform, hasks⟩ :=
    base_of_unfinished ho hh.2 hinside hn hm hmodel
  have hstands := hwritten.stands hpeel
  have hneeds : ∀ demand, registry.lookup.Needs (.merge schema) demand →
      registry.lookup.Needs (.component owner) demand := fun demand hd =>
    hstands.owns.needs_iff.mpr ((Lookup.needs_merge_iff hcompatible hform).mp hd)
  have hrun : (registry.meeting (registry.lookup.Needs (.branch (.ref path)))).Runs (· = arena)
      (registry.mergeUnfinished calls trail path location pos merged)
      fun result after => registry.Adds (.branch (.ref path)) merged result after := by
    rw [mergeUnfinished_eq]
    rw [hwritten.writtenComponent_eq hpeel hn]
    refine Regime.Runs.lift_bind (fun written hw => ?_) fun error other he _ => nomatch he
    cases hw
    simp only
    split
    -- A component that is merged into itself extends itself, and no good one does.
    next hseen =>
      refine Regime.Runs.throw fun _ _ => ⟨.extend path, .base, ?_⟩
      rintro ⟨other, hother, _, _, hacc⟩
      cases hn.symm.trans hother
      have hback := hinside.inherited owner (by simpa using hseen)
      have hself : TransGen registry.lookup.Under name name :=
        .head' (.inr ⟨path, hinside.asked _ .base, hn⟩) (hback.trans hstands.under)
      exact not_transGen_of_acc hacc hself
    next hseen =>
      have hnot : owner ∉ trail.inheriting := by simpa using hseen
      rw [if_neg (by simp [hcompatible])]
      have hmerge := (hc.merge { trail with inheriting := trail.inheriting ++ [owner] } schema
        (Section.schemas.pointer owner) pos merged owner).frame
          (k := fun arena => Entries.get? arena.memo name = some id) fun hl h => hl.1.memo_get? h
      refine (decides_mono hmerge fun h => Lookup.fails_of_not_good (.inr .base) hn fun hg =>
        Lookup.not_good_of_fails (h.mono hneeds) (hstands.good hg)).weaken ?_ ?_
      · rintro arena rfl
        exact ⟨⟨hkeyed, inside_inherit hinside hn hstands hwritten.found hneeds hnot⟩, hm⟩
      · rintro result after ⟨⟨hsupplies, hkeyed', hhas⟩, hm'⟩
        refine ⟨fun demand hd => ?_, hkeyed', fun fact => ?_⟩
        · cases Lookup.needs_branch_ref.mp hd
          have hacc := Arena.Supplies.acc (fun demand hd => hsupplies demand
            ((Lookup.needs_merge_iff hcompatible hform).mpr hd)) hstands.owns
          exact ⟨name, hn, Entries.has_iff.mpr ⟨id, hm'⟩,
            Lookup.extensible_of_compatible hcompatible hform hstands, hstands.acc hacc⟩
        · rw [hhas, Lookup.gives_merge_iff hcompatible hform hasks, Lookup.gives_branch_ref hn,
            hstands.gives_iff]
  exact hrun arena hh rfl

/-- The model of a finished component is merged. -/
theorem mergeFinished_adds (merged : Merged) {id : ModelId} {model : Model}
    (hj : arena.Judged registry.lookup)
    (hn : Section.schemas.named? path = some name) (hm : Entries.get? arena.memo name = some id)
    (hmodel : arena.model? id = some model) :
    (∀ object, model = .object object → merged.Keyed → registry.Adds (.branch (.ref path)) merged
      (object.properties.foldl Merged.insert
        { merged with shaped := true, additional := merged.additional || object.additional })
      arena) ∧
    (model = .freeForm → merged.Keyed → registry.Adds (.branch (.ref path)) merged merged arena) ∧
    ((∀ object, model ≠ .object object) → model ≠ .freeForm →
      registry.lookup.Fails (registry.lookup.Needs (.branch (.ref path)))) := by
  obtain ⟨owner, schema, hstands, hplace⟩ := hj.stands name id hm
  obtain ⟨hshows, hsupplies⟩ := hj.settled owner schema id model hstands.owns hplace hmodel
  have hmet : registry.lookup.Extensible name →
      arena.Supplies registry.lookup (registry.lookup.Needs (.branch (.ref path))) := by
    intro hextensible demand hd
    cases Lookup.needs_branch_ref.mp hd
    exact ⟨name, hn, Entries.has_iff.mpr ⟨id, hm⟩, hextensible,
      hstands.acc (hsupplies.acc hstands.owns)⟩
  refine ⟨?_, ?_, fun hobject hfree => ?_⟩
  · rintro object rfl hkeyed
    obtain ⟨_, hhas⟩ := hshows.has object rfl
    refine ⟨hmet (.inl (hstands.gives_iff.mpr ((hhas .shaped).mp trivial))), ?_, fun fact => ?_⟩
    · exact Merged.Keyed.foldl_insert _ ⟨hkeyed.named, hkeyed.nodup⟩
    · rw [Merged.has_inherit, hhas, Lookup.gives_branch_ref hn, hstands.gives_iff]
  · rintro rfl hkeyed
    have hfree : registry.lookup.Free (.component name) :=
      hstands.free_iff.mpr (hshows.free.mp rfl)
    refine ⟨hmet (.inr hfree), hkeyed, fun fact => ?_⟩
    have hnone : ¬ registry.lookup.Gives (.branch (.ref path)) fact := fun hg =>
      hfree.not_shaped (((Lookup.gives_branch_ref hn).mp hg).shaped rfl)
    simp [hnone]
  · refine Lookup.fails_of_not_extensible .base hn ?_
    rintro (hshaped | hfreeForm)
    · obtain ⟨object, ho⟩ := hshows.shaped (hstands.gives_iff.mp hshaped)
      exact hobject object ho
    · exact hfree (hshows.free.mpr (hstands.free_iff.mp hfreeForm))

theorem mergeComponent_decides (hc : calls.Decides registry limit)
    (ho : registry.lookup.Orderly) :
    registry.Merges limit trail top (.branch (.ref path)) 2 merged
      (registry.mergeComponent calls trail path location pos merged) := by
  unfold mergeComponent
  have hfails : registry.lookup.Fails (· = .refer path) →
      registry.lookup.Fails (registry.lookup.Needs (.branch (.ref path))) := by
    rintro ⟨demand, rfl, hm⟩
    refine ⟨.extend path, .base, ?_⟩
    rintro ⟨name, hn, hg, _⟩
    exact hm ⟨name, hn, hg⟩
  have hbefore : ∀ {arena : Arena}, Inside registry limit trail top
      (registry.lookup.Needs (.branch (.ref path))) 2 arena →
        ∀ name, Section.schemas.named? path = some name →
          Before registry limit trail name 2 arena :=
    fun h name hn => h.stands_before ⟨path, .inr .base, hn⟩ (Nat.le_refl 2)
  refine (((decides_mono (resolveRef_decides hc) hfails).frame
    (k := fun arena => merged.Keyed ∧ Inside registry limit trail top
      (registry.lookup.Needs (.branch (.ref path))) 2 arena) fun hl h =>
        h.imp id (Inside.leads hl)).weaken (fun arena h => ⟨hbefore h.2, h⟩)
          fun _ _ h => h).bind fun target => ?_
  intro arena hh hp
  obtain ⟨⟨name, id, rfl, hn, hm⟩, hkeyed, hinside⟩ := hp
  refine Resolving.ensures_get_bind ?_
  simp only [Resolved.id]
  cases hmodel : arena.model? id with
  | none =>
    exact mergeUnfinished_decides hc ho hn arena hh ⟨⟨hkeyed, hinside⟩, hm, hmodel⟩
  | some model =>
    obtain ⟨hobject, hfree, hother⟩ := mergeFinished_adds merged hh.2 hn hm hmodel
    have hrefl := (registry.meeting (registry.lookup.Needs (.branch (.ref path)))).refl arena
    cases model with
    | object object => exact Resolving.ensures_pure ⟨hh, hrefl, hobject object rfl hkeyed⟩
    | freeForm => exact Resolving.ensures_pure ⟨hh, hrefl, hfree rfl hkeyed⟩
    | _ => exact Resolving.ensures_throw (hother nofun nofun)

theorem mergeBranch_decides (hc : calls.Decides registry limit) (ho : registry.lookup.Orderly)
    (top : String) (branch : SchemaNode × Nat) :
    registry.Merges limit trail top (.branch branch.1) (2 * branch.1.size) merged
      (registry.mergeBranch calls trail pointer pos merged branch) := by
  unfold mergeBranch
  obtain ⟨node, index⟩ := branch
  cases node with
  | ref path =>
    have hsize : 2 + limit ≤ 2 * (SchemaNode.ref path).size + limit := by
      rw [SchemaNode.size]
    exact (mergeComponent_decides hc ho).weaken
      (fun arena h => ⟨h.1, h.2.part (fun _ => id) hsize⟩) fun _ _ h => h
  | inline schema =>
    simp only
    split
    next hannotation =>
      refine Regime.Runs.pure fun arena h => ⟨fun demand hd => ?_, h.1, fun fact => ?_⟩
      · cases hd with
        | stray real => cases hannotation.symm.trans real
        | nested real => cases hannotation.symm.trans real
      · have hnone : ¬ registry.lookup.Gives (.branch (.inline schema)) fact := by
          intro hg
          cases hg with
          | nested real => cases hannotation.symm.trans real
        simp [hnone]
    next hannotation =>
      have hreal : schema.isAnnotation = false := by simpa using hannotation
      split
      next hgood =>
        have hneeds : ∀ demand, registry.lookup.Needs (.merge schema) demand →
            registry.lookup.Needs (.branch (.inline schema)) demand :=
          fun demand => .nested hreal hgood
        refine (decides_mono (hc.merge _ _ _ _ _ top) fun h => h.mono hneeds).weaken
          (fun arena h => h.imp id fun hi => hi.part hneeds (Nat.le_refl _)) ?_
        rintro result after ⟨hsupplies, hkeyed, hhas⟩
        refine ⟨fun demand hd => ?_, hkeyed, fun fact => ?_⟩
        · exact hsupplies demand ((Lookup.needs_branch_inline hreal hgood).mp hd)
        · rw [hhas, Lookup.gives_branch_inline hreal]
      next hbad =>
        exact Regime.Runs.throw fun _ _ => Lookup.fails_never (.stray hreal (by simpa using hbad))

/-- Items are added to an object one after the other. -/
theorem foldlM_adds {γ : Type} {needs : Demand → Prop} {asked : γ → Demand → Prop}
    {given : γ → Fact → Prop} {step : Merged → γ → Resolving Merged} {weight : Nat} (items : List γ)
    (hs : ∀ item ∈ items, ∀ merged : Merged, (registry.meeting needs).Runs
      (fun arena => merged.Keyed ∧ Inside registry limit trail top needs weight arena)
      (step merged item) fun result after => after.Supplies registry.lookup (asked item) ∧
        result.Keyed ∧ ∀ fact, result.Has fact ↔ merged.Has fact ∨ given item fact)
    (start : Merged) : (registry.meeting needs).Runs
      (fun arena => start.Keyed ∧ Inside registry limit trail top needs weight arena)
      (items.foldlM step start) fun result after =>
        (∀ item ∈ items, after.Supplies registry.lookup (asked item)) ∧
        (∀ fact, result.Has fact ↔ start.Has fact ∨ ∃ item ∈ items, given item fact) ∧
        result.Keyed ∧ Inside registry limit trail top needs weight after := by
  refine (Regime.Runs.foldlM (i := fun done merged arena =>
    (∀ item ∈ done, arena.Supplies registry.lookup (asked item)) ∧
      (∀ fact, merged.Has fact ↔ start.Has fact ∨ ∃ item ∈ done, given item fact) ∧
        merged.Keyed ∧ Inside registry limit trail top needs weight arena) items ?_ start).weaken
      (fun arena h => ⟨by simp, by simp, h⟩) fun _ _ h => h
  intro done item rest hsplit merged
  have hlisted : item ∈ items := hsplit ▸ List.mem_append_right _ List.mem_cons_self
  refine ((hs item hlisted merged).frame (k := fun arena =>
    (∀ item ∈ done, arena.Supplies registry.lookup (asked item)) ∧
      (∀ fact, merged.Has fact ↔ start.Has fact ∨ ∃ item ∈ done, given item fact) ∧
        Inside registry limit trail top needs weight arena) ?_).weaken
      (fun arena h => ⟨h.2.2, h.1, h.2.1, h.2.2.2⟩) ?_
  · exact fun hl h => ⟨fun item hm => (h.1 item hm).grows hl.1, h.2.1, h.2.2.leads hl⟩
  · rintro result after ⟨⟨hsupplies, hkeyed, hhas⟩, hdone, hbefore, hinside⟩
    refine ⟨fun other hm => ?_, fun fact => ?_, hkeyed, hinside⟩
    · rcases List.mem_append.mp hm with hold | hnew
      · exact hdone other hold
      · exact List.mem_singleton.mp hnew ▸ hsupplies
    · rw [hhas, hbefore]
      simp [or_and_right, exists_or, or_assoc]

theorem insertProperty_adds (hc : calls.Decides registry limit) {pair : String × SchemaNode}
    (hm : pair ∈ schema.properties) (merged : Merged) :
    (registry.meeting (registry.lookup.Needs (.merge schema))).Runs
      (fun arena => merged.Keyed ∧ Inside registry (limit + 1) trail top
        (registry.lookup.Needs (.merge schema)) (2 * schema.size) arena)
      (do
        let property ← resolveProperty calls trail pointer pos pair.1 pair.2
        pure (merged.insert property))
      fun result after =>
        after.Supplies registry.lookup (registry.lookup.Needs (.resolve pair.2)) ∧ result.Keyed ∧
          ∀ fact, result.Has fact ↔ merged.Has fact ∨ fact = .declares pair.1 := by
  refine Regime.Runs.bind (((resolveProperty_decides hc (fun demand => .member hm)
    (SchemaOf.size_property hm)).frame (k := fun _ => merged.Keyed) fun _ h => h).weaken
      (fun arena h => h.symm) fun _ _ h => h) fun property => Regime.Runs.pure ?_
  rintro arena ⟨⟨hsupplies, hname, hoptional⟩, hkeyed⟩
  refine ⟨hsupplies, hkeyed.insert property, fun fact => ?_⟩
  rw [Merged.has_insert]
  cases fact with
  | declares name => simp [Property.Has, hname, eq_comm]
  | asks name => simp [Property.Has, hoptional]
  | shaped => simp [Property.Has]

theorem mergeSchema_decides (hc : calls.Decides registry limit) (ho : registry.lookup.Orderly) :
    registry.Merges (limit + 1) trail top (.merge schema) (2 * schema.size) merged
      (registry.mergeSchema calls trail schema pointer pos merged) := by
  have hbranch : ∀ branch ∈ schema.allOf.zipIdx, ∀ merged : Merged,
      (registry.meeting (registry.lookup.Needs (.merge schema))).Runs
        (fun arena => merged.Keyed ∧ Inside registry (limit + 1) trail top
          (registry.lookup.Needs (.merge schema)) (2 * schema.size) arena)
        (registry.mergeBranch calls trail pointer pos merged branch) fun result after =>
          after.Supplies registry.lookup (registry.lookup.Needs (.branch branch.1)) ∧
            result.Keyed ∧ ∀ fact, result.Has fact ↔
              merged.Has fact ∨ registry.lookup.Gives (.branch branch.1) fact := by
    intro branch hm merged
    have hlisted : branch.1 ∈ schema.allOf := List.fst_mem_of_mem_zipIdx hm
    have hneeds : ∀ demand, registry.lookup.Needs (.branch branch.1) demand →
        registry.lookup.Needs (.merge schema) demand := fun demand => .part hlisted
    have hsize := SchemaOf.size_branch hlisted
    exact (decides_mono (mergeBranch_decides hc ho top branch) fun h => h.mono hneeds).weaken
      (fun arena h => ⟨h.1, h.2.part hneeds (by omega)⟩) fun _ _ h => h
  unfold mergeSchema
  refine (foldlM_adds _ hbranch merged).bind fun between => ?_
  have hparts : ∀ fact, (∃ branch ∈ schema.allOf.zipIdx,
      registry.lookup.Gives (.branch branch.1) fact) ↔
        ∃ node ∈ schema.allOf, registry.lookup.Gives (.branch node) fact := fun fact =>
    exists_zipIdx_iff (p := fun node => registry.lookup.Gives (.branch node) fact)
  refine Regime.Runs.bind (((foldlM_adds schema.properties (fun pair hm merged =>
    insertProperty_adds hc hm merged)
      { between with shaped := between.shaped || declaresObject schema }).frame
        (k := fun arena => (∀ branch ∈ schema.allOf.zipIdx,
          arena.Supplies registry.lookup (registry.lookup.Needs (.branch branch.1))) ∧
            ∀ fact, between.Has fact ↔ merged.Has fact ∨
              ∃ branch ∈ schema.allOf.zipIdx, registry.lookup.Gives (.branch branch.1) fact)
          fun hl h => ⟨fun branch hm => (h.1 branch hm).grows hl.1, h.2⟩).weaken
            (fun arena h => ⟨⟨⟨h.2.2.1.named, h.2.2.1.nodup⟩, h.2.2.2⟩, h.1, h.2.1⟩)
              fun _ _ h => h) fun result => Regime.Runs.pure ?_
  rintro arena ⟨⟨hproperties, hhas, hkeyed, _⟩, hbranches, hbetween⟩
  refine ⟨fun demand hd => ?_, ⟨hkeyed.named, hkeyed.nodup⟩, fun fact => ?_⟩
  · rcases Lookup.needs_merge.mp hd with ⟨node, hm, hinner⟩ | ⟨pair, hm, hinner⟩
    · obtain ⟨index, hi⟩ := exists_mem_zipIdx hm
      exact hbranches _ hi demand hinner
    · exact hproperties pair hm demand hinner
  · rw [Merged.has_require, hhas, Merged.has_shape, hbetween, Lookup.gives_merge,
      SchemaOf.writes_iff, ← hparts]
    simp only [or_assoc]

theorem Adds.gives_iff {work : Work} {fact : Fact} (h : registry.Adds work {} merged arena) :
    merged.Has fact ↔ registry.lookup.Gives work fact := by
  rw [h.2.2]
  simp [Merged.not_has_empty]

/-- An object that a schema is merged into is what the schema makes known. -/
theorem Adds.shows_object {object : ObjectModel} (hf : registry.lookup.form schema = .merged)
    (h : registry.Adds (.merge schema) {} merged arena) (hs : merged.shaped = true)
    (hp : object.properties = merged.finish) :
    (Model.object object).Shows registry.lookup schema := by
  have hshaped : registry.lookup.Gives (.merge schema) .shaped := (Adds.gives_iff h).mp hs
  refine ⟨⟨nofun, fun hn => ?_⟩, fun _ => ⟨object, rfl⟩, ?_⟩
  · rw [Lookup.free_build, hf] at hn
    exact absurd hshaped hn
  · rintro other ho
    cases ho
    refine ⟨h.2.1.coherent hp, fun fact => ?_⟩
    rw [Merged.has_finish h.2.1 hp, Lookup.gives_build, hf]
    cases fact with
    | declares name => simp [Lookup.FormGives, Adds.gives_iff h]
    | asks name => simp [Lookup.FormGives, Adds.gives_iff h, and_comm]
    | shaped => simp [Lookup.FormGives, hshaped]

theorem Adds.shows_freeForm (hf : registry.lookup.form schema = .merged)
    (h : registry.Adds (.merge schema) {} merged arena) (hs : merged.shaped = false) :
    Model.freeForm.Shows registry.lookup schema := by
  have hnone : ¬ registry.lookup.Gives (.merge schema) .shaped := by
    rw [← Adds.gives_iff h]
    simp [Merged.Has, hs]
  refine Model.shows_of_unshaped (fun _ he => by cases he) ⟨fun _ => ?_, fun _ => rfl⟩ ?_
  · rw [Lookup.free_build, hf]
    exact hnone
  · rw [Lookup.gives_build, hf]
    exact fun hg => hnone hg.1

theorem buildAllOf_decides (hc : calls.Decides registry limit) (ho : registry.lookup.Orderly)
    (hf : registry.lookup.form schema = .merged) :
    registry.Builds (limit + 1) trail top schema (registry.buildAllOf calls trail schema pos) := by
  have hplain : registry.lookup.form schema ≠ .plain := fun hp => by cases hf.symm.trans hp
  unfold buildAllOf
  split
  next hbad =>
    exact Regime.Runs.throw fun _ _ => Lookup.fails_never (.incompatible hf (by simpa using hbad))
  next hgood =>
    have hcompatible : schema.isObjectCompatible = true := by simpa using hgood
    have hneeds : ∀ demand, registry.lookup.Needs (.merge schema) demand →
        registry.lookup.Needs (.build schema) demand := fun demand => .merged hf
    refine ((decides_mono (mergeSchema_decides hc ho) fun h => h.mono hneeds).weaken
      (fun arena h => ⟨Merged.keyed_empty, h.part hneeds (Nat.le_refl _)⟩)
        fun _ _ h => h).bind fun merged => ?_
    have hsupplies : ∀ arena : Arena, registry.Adds (.merge schema) {} merged arena →
        arena.Supplies registry.lookup (registry.lookup.Needs (.build schema)) :=
      fun arena h demand hd => h.1 demand ((Lookup.needs_merge_iff hcompatible hplain).mpr hd)
    split
    next hs =>
      exact Regime.Runs.pure fun arena h => ⟨hsupplies arena h, Adds.shows_object hf h hs rfl⟩
    next hs =>
      have hunshaped : merged.shaped = false := by simpa using hs
      exact Regime.Runs.pure fun arena h => ⟨hsupplies arena h, Adds.shows_freeForm hf h hunshaped⟩

/-- A model is built by the form of its schema. -/
theorem buildForm_decides (hc : calls.Decides registry limit) (ho : registry.lookup.Orderly)
    {several : Resolving Model}
    (hs : registry.lookup.form schema = .several →
      registry.Builds (limit + 1) trail top schema several) :
    registry.Builds (limit + 1) trail top schema
      (registry.buildForm calls several trail schema pos (registry.form schema)) := by
  have hform : registry.form schema = registry.lookup.form schema := rfl
  rw [hform]
  cases hf : registry.lookup.form schema with
  | merged => exact buildAllOf_decides hc ho hf
  | object => exact buildObject_decides hc hf
  | array => exact buildArray_decides hc hf
  | map value => exact buildMap_decides hc hf
  | union => exact buildUnion_decides hc hf
  | several => exact hs hf
  | plain => exact plainModel_decides hf

theorem form_only (lookup : Lookup) (type : SchemaType) :
    lookup.form (schema.only type) ≠ .several := by
  have hone : (schema.only type).nonNullTypes.length ≤ 1 := by
    simp only [SchemaOf.only, SchemaOf.nonNullTypes, TypeSet.nonNull]
    split <;> simp
  intro hf
  unfold Lookup.form form at hf
  split at hf
  next => cases hf
  next =>
    split at hf
    next => cases hf
    next =>
      split at hf
      next => cases hf
      next =>
        split at hf
        · cases hf
        · cases hf
        · split_ifs at hf
          omega

theorem buildTypeUnion_decides (hc : calls.Decides registry limit) (ho : registry.lookup.Orderly)
    (hf : registry.lookup.form schema = .several) :
    registry.Builds (limit + 1) trail top schema
      (registry.buildTypeUnion calls trail schema pos) := by
  unfold buildTypeUnion typeCases
  simp only [classify_eq_buildForm]
  refine Regime.Runs.bind (Regime.Runs.mapM (q := fun (pair : SchemaType × Nat) (_ : Case) after =>
    after.Supplies registry.lookup (registry.lookup.Needs (.build (schema.only pair.1)))) _
      Inside.leads (fun hl h => h.grows hl.1) fun pair hm => ?_) fun cases => ?_
  · obtain ⟨type, index⟩ := pair
    have hlisted : type ∈ schema.nonNullTypes := List.fst_mem_of_mem_zipIdx hm
    have hneeds : ∀ demand, registry.lookup.Needs (.build (schema.only type)) demand →
        registry.lookup.Needs (.build schema) demand := fun demand => .type hf hlisted
    have hsize : (schema.only type).size = schema.size := by
      rw [SchemaOf.size_eq, SchemaOf.size_eq]
      rfl
    refine (decides_mono (place_decides (buildForm_decides hc ho fun hseveral =>
      absurd hseveral (form_only _ type)) (buildForm_steady hc.steady
        (Regime.Runs.pure fun _ _ child hchild => ?_) _) pos.scope) fun h => h.mono hneeds).weaken
          (fun arena h => h.part hneeds (by rw [hsize])) fun _ _ h => h
    simp [Model.children] at hchild
  · refine Regime.Runs.pure fun arena h => ⟨fun demand hd => ?_, ?_⟩
    · rw [Lookup.needs_build, hf] at hd
      obtain ⟨type, hm, hinner⟩ := hd
      obtain ⟨index, hi⟩ := exists_mem_zipIdx hm
      obtain ⟨_, _, hsupplies⟩ := forall₂_of_mem_right h.flip hi
      exact hsupplies demand hinner
    · exact shows_of_parts (fun _ he => by cases he) (fun he => by cases he) (.inr (.inr hf))

theorem buildSchema_decides (hc : calls.Decides registry limit) (ho : registry.lookup.Orderly) :
    registry.Builds (limit + 1) trail top schema (registry.buildSchema calls trail schema pos) := by
  rw [buildSchema_eq_buildForm]
  exact buildForm_decides hc ho (buildTypeUnion_decides hc ho)

theorem resolveNode_follow_decides (hc : calls.Decides registry limit) :
    (registry.meeting (· = .refer path)).Runs
      (fun arena => ∀ name, Section.schemas.named? path = some name →
        Before registry limit trail name 2 arena)
      (registry.resolveNode calls trail (.ref path) pos)
      fun _ after => after.Meets registry.lookup (.refer path) := by
  unfold resolveNode
  simp only [SchemaNode.unwrap_node, SchemaNode.bare_ref]
  refine (resolveRef_decides hc).weaken (fun _ h => h) ?_
  rintro resolved after ⟨name, id, _, hn, hm⟩
  exact ⟨name, hn, Entries.has_iff.mpr ⟨id, hm⟩⟩

theorem resolveNode_decides (hc : calls.Decides registry limit) :
    (registry.meeting (registry.lookup.Needs (.resolve node))).Runs
      (Inside registry (limit + 1) trail top (registry.lookup.Needs (.resolve node))
        (2 * node.size + 1))
      (registry.resolveNode calls trail node pos)
      fun _ after => after.Supplies registry.lookup (registry.lookup.Needs (.resolve node)) := by
  unfold resolveNode
  have hsize := node.size_bare
  simp only [SchemaNode.unwrap_node]
  cases hbare : node.bare with
  | ref path =>
    have hone := node.one_le_size
    have hneeds : registry.lookup.Needs (.resolve node) (.refer path) := .refer hbare
    refine (decides_mono (resolveRef_decides hc) fun h => h.mono fun demand he =>
      he ▸ hneeds).weaken ?_ ?_
    · intro arena h name hn
      have hpart : Inside registry limit trail top (registry.lookup.Needs (.resolve node)) 2 arena :=
        h.part (fun _ => id) (by omega)
      exact hpart.stands_before ⟨path, .inl hneeds, hn⟩ (Nat.le_refl 2)
    · rintro resolved after ⟨name, id, _, hn, hm⟩ demand hd
      cases (Lookup.needs_resolve_ref hbare).mp hd
      exact ⟨name, hn, Entries.has_iff.mpr ⟨id, hm⟩⟩
  | inline schema =>
    rw [hbare] at hsize
    have hneeds : ∀ demand, registry.lookup.Needs (.build schema) demand ↔
        registry.lookup.Needs (.resolve node) demand :=
      fun demand => (Lookup.needs_resolve_inline hbare).symm
    have hweight : 2 * schema.size + (limit + 1) ≤ 2 * node.size + 1 + limit := by
      unfold SchemaOf.size
      omega
    refine (decides_mono (place_decides (hc.build _ _ _ top) (hc.steady.build _ _ _) pos.scope)
      fun h => h.mono fun demand => (hneeds demand).mp).weaken
        (fun arena h => h.part (fun demand => (hneeds demand).mp) hweight) ?_
    exact fun _ after h demand hd => h demand ((hneeds demand).mpr hd)

theorem callsWithin_decides_succ {depth : Nat} (ho : registry.lookup.Orderly)
    (hc : (registry.callsWithin noCalls depth).Decides registry limit) :
    (registry.callsWithin noCalls (depth + 1)).Decides registry (limit + 1) := by
  rw [callsWithin_succ]
  refine ⟨step_steady hc.steady, fun trail path pos => ?_, fun _ _ _ _ => resolveNode_decides hc,
    fun _ _ _ _ => buildSchema_decides hc ho, fun _ _ _ _ _ _ => mergeSchema_decides hc ho⟩
  refine (resolveNode_follow_decides hc).weaken (fun arena h name hn => ?_) fun _ _ h => h
  have hroom := (h name hn).room
  exact ⟨by omega, (h name hn).followed, (h name hn).reached⟩

/-- Calls that may not be nested at all are never made. -/
theorem decides_zero (hs : calls.Steady registry) : calls.Decides registry 0 := by
  have hsize : ∀ schema : Schema, 1 ≤ schema.size := fun schema =>
    (SchemaNode.inline schema).one_le_size
  refine ⟨hs, fun trail path pos arena hh h => ?_, fun trail node pos top arena hh h => ?_,
    fun trail schema pos top arena hh h => ?_,
    fun trail schema pointer pos merged top arena hh h => ?_⟩
  · cases hn : Section.schemas.named? path with
    | some name =>
      have hroom := (h name hn).room
      omega
    | none =>
      refine (hs.resolve trail (.ref path) pos arena hh.1 trivial).weaken ?_ fun _ _ =>
        Lookup.fails_of_unnamed (.inl rfl) hn
      rintro resolved after ⟨_, _, _, hanswers⟩
      cases resolved with
      | ref name id =>
        obtain ⟨path', hp, hname⟩ := hanswers
        rw [SchemaNode.bare_ref] at hp
        cases hp
        cases hn.symm.trans hname
      | value id =>
        obtain ⟨schema, hp⟩ := hanswers
        simp at hp
  · have hroom := h.room
    omega
  · have hroom := h.room
    have hone := hsize schema
    omega
  · have hroom := h.2.room
    have hone := hsize schema
    omega

/-- Calls decide as deep as they may be nested. -/
theorem callsWithin_decides (ho : registry.lookup.Orderly) (depth : Nat) :
    ∀ limit ≤ depth, (registry.callsWithin noCalls depth).Decides registry limit := by
  -- Each nesting uses one unit of the limit; where none is left there is no room for a call.
  induction depth with
  | zero =>
    intro limit hl
    rw [Nat.le_zero.mp hl]
    exact decides_zero (callsWithin_steady noCalls_steady 0)
  | succ depth ih =>
    intro limit hl
    cases limit with
    | zero => exact decides_zero (callsWithin_steady noCalls_steady (depth + 1))
    | succ limit => exact callsWithin_decides_succ ho (ih limit (by omega))

/-- A component is resolved where nothing is unfinished just if it is good. -/
theorem component_decides (ho : registry.lookup.Orderly) (name : String) :
    (deciding registry (¬ registry.lookup.Good name)).Runs
      (fun arena => ∀ other, ¬ arena.Unfinished registry.lookup other) (registry.component name)
      fun id after => Entries.get? after.memo name = some id := by
  unfold component
  refine (componentId_decides (callsWithin_decides ho _ _ (Nat.le_refl _))).weaken
    (fun arena h => ?_) fun _ _ h => h
  have hbudget : registry.depth arena {} + 2 * 1 + 1 ≤ registry.budget 1 := depth_le_budget 1
  exact ⟨by omega, fun other hm => by simp at hm, fun other hu => absurd hu (h other)⟩

end Registry

end ApiAtlas
