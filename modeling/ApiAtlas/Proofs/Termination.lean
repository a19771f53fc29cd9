import ApiAtlas.Proofs.CallTree
import ApiAtlas.Proofs.ResolverSideBySide

namespace ApiAtlas

namespace Registry

variable {registry : Registry} {limit : Nat} {trail : Trail} {schema : Schema}
  {node : SchemaNode} {pos : Position} {name path pointer location reference : String}
  {merged : Merged}

/-- The room that a call takes up. -/
def rank (registry : Registry) (arena : Arena) : Call → Nat
  | .resolve trail node _ => registry.depth arena trail + (2 * node.size + 1)
  | .build trail schema _ => registry.depth arena trail + 2 * schema.size
  | .merge trail schema _ _ _ => registry.depth arena trail + 2 * schema.size

/-- Calls for which there is room come to a result. -/
def Serves (registry : Registry) (limit : Nat) : Prop :=
  ∀ call, registry.Ends limit (fun arena => registry.rank arena call ≤ limit)
    fun calls => calls.answer call

theorem Serves.resolve (hs : registry.Serves limit) (trail : Trail) (node : SchemaNode)
    (pos : Position) : registry.Ends limit (registry.Room limit trail (2 * node.size + 1))
      fun calls => calls.resolve trail node pos :=
  hs (.resolve trail node pos)

theorem Serves.build (hs : registry.Serves limit) (trail : Trail) (schema : Schema)
    (pos : Position) : registry.Ends limit (registry.Room limit trail (2 * schema.size))
      fun calls => calls.build trail schema pos :=
  hs (.build trail schema pos)

theorem Serves.merge (hs : registry.Serves limit) (trail : Trail) (schema : Schema)
    (pointer : String) (pos : Position) (merged : Merged) :
    registry.Ends limit (registry.Room limit trail (2 * schema.size))
      fun calls => calls.merge trail schema pointer pos merged :=
  hs (.merge trail schema pointer pos merged)

/-- A component that is another name. -/
theorem componentId_alias_ends (hs : registry.Serves limit) {arena : Arena} {body : SchemaNode}
    (hb : Entries.get? registry.schemas name = some body) (ht : name ∉ trail.aliases)
    (hroom : registry.Room limit trail 2 arena) :
    registry.Ends limit (fun other => other = arena) fun calls => (do
      let target ← calls.resolve { trail with aliases := trail.aliases ++ [name] } (.ref path) pos
      modify fun arena => arena.remember name target.id
      pure target.id : Resolving ModelId) := by
  have hstart : registry.Room limit { trail with aliases := trail.aliases ++ [name] }
      (2 * (SchemaNode.ref path).size + 1) arena := by
    have hdepth := depth_follow arena hb ht
    unfold Room at hroom ⊢
    rw [SchemaNode.size]
    omega
  refine Ends.weaken (Ends.bind Room.kept (hs.resolve _ (.ref path) pos) fun target => ?_)
    fun other ho => ho ▸ hstart
  exact Ends.remember.bind Room.kept fun _ => Ends.pure

/-- A component with a body of its own. -/
theorem componentId_body_ends (hs : registry.Serves limit) {arena : Arena} {body : SchemaNode}
    (hb : Entries.get? registry.schemas name = some body) (hbare : body.bare = .inline schema)
    (hm : Entries.get? arena.memo name = none) (hroom : registry.Room limit trail 2 arena) :
    registry.Ends limit (fun other => other = arena) fun calls => (do
      let id ← Resolving.reserve []
      modify fun arena => arena.remember name id
      let model ← calls.build {} schema pos
      Resolving.fill id model
      pure id : Resolving ModelId) := by
  refine Ends.reserve_bind fun start hstart => ?_
  refine Ends.modify_bind (fun start => start.recalls_remember name _) fun middle hmiddle => ?_
  have hsize : schema.size ≤ body.size := by
    have hle := body.size_bare
    rwa [hbare] at hle
  have hinner : registry.Room limit {} (2 * schema.size)
      ((arena.reserve []).2.remember name arena.slots.length) := by
    have hdepth := depth_enter hb hm trail arena.slots.length []
    unfold Room at hroom ⊢
    omega
  refine Ends.weaken (Ends.bind Room.kept (hs.build {} schema pos) fun model => ?_)
    fun other ho => ?_
  · exact Ends.fill.bind Room.kept fun _ => Ends.pure
  · rw [ho, hmiddle, hstart]
    exact hinner

theorem componentId_ends (hs : registry.Serves limit) :
    registry.Ends limit (registry.Room limit trail 2)
      fun calls => registry.componentId calls trail name reference location := by
  simp only [componentId_eq]
  refine Ends.get_bind fun arena hroom => ?_
  cases hm : Entries.get? arena.memo name with
  | some id => exact Ends.pure
  | none =>
    refine Ends.ite (fun _ => Ends.throw) fun _ => ?_
    refine Ends.ite (fun _ => Ends.throw) fun ht => ?_
    have ht' : name ∉ trail.aliases := by simpa using ht
    cases hb : Entries.get? registry.schemas name with
    | none => exact Ends.throw
    | some body =>
      simp only [SchemaNode.unwrap_node]
      cases hbare : body.bare with
      | ref path => exact componentId_alias_ends hs hb ht' hroom
      | inline schema => exact componentId_body_ends hs hb hbare hm hroom

theorem resolveRef_ends (hs : registry.Serves limit) :
    registry.Ends limit (registry.Room limit trail 2)
      fun calls => registry.resolveRef calls trail path location := by
  unfold resolveRef
  refine Ends.lift_bind fun name _ => ?_
  exact (componentId_ends hs).bind Room.kept fun id => Ends.pure

theorem resolveProperty_ends (hs : registry.Serves limit) :
    registry.Ends limit (registry.Room limit trail (2 * node.size + 1))
      fun calls => resolveProperty calls trail pointer pos name node := by
  unfold resolveProperty
  exact (hs.resolve _ _ _).bind Room.kept fun model => Ends.pure

theorem buildObject_ends (hs : registry.Serves limit) :
    registry.Ends limit (registry.Room (limit + 1) trail (2 * schema.size))
      fun calls => buildObject calls trail schema pos := by
  unfold buildObject
  refine (Ends.mapM _ Room.kept fun (name, node) hm => ?_).bind Room.kept fun properties => Ends.pure
  have hsize := SchemaOf.size_property hm
  refine Ends.bind Room.kept ((resolveProperty_ends hs).weaken fun arena hroom => ?_)
    fun property => Ends.pure
  exact hroom.of_le (by omega)

theorem mergeUnfinished_ends (hs : registry.Serves limit) :
    registry.Ends limit (registry.Room limit trail 2)
      fun calls => registry.mergeUnfinished calls trail path location pos merged := by
  simp only [mergeUnfinished_eq]
  refine Ends.lift_bind fun (name, body) hw => ?_
  refine Ends.ite (fun _ => Ends.throw) fun ht => ?_
  refine Ends.ite (fun _ => Ends.throw) fun _ => ?_
  have ht' : name ∉ trail.inheriting := by simpa using ht
  refine (hs.merge _ _ _ _ _).weaken fun arena hroom => ?_
  obtain ⟨_, _, hfound⟩ := Lookup.writtenAs_of_ok _ hw
  have hdepth := depth_inherit arena hfound.found ht'
  simp only [Room] at hroom ⊢
  omega

theorem mergeComponent_ends (hs : registry.Serves limit) :
    registry.Ends limit (registry.Room limit trail 2)
      fun calls => registry.mergeComponent calls trail path location pos merged := by
  unfold mergeComponent
  refine (resolveRef_ends hs).bind Room.kept fun target => Ends.get_bind fun arena hroom => ?_
  cases arena.model? target.id with
  | none => exact (mergeUnfinished_ends hs).weaken fun other ho => ho ▸ hroom
  | some model =>
    cases model with
    | object object => exact Ends.pure
    | freeForm => exact Ends.pure
    | _ => exact Ends.throw

theorem mergeBranch_ends (hs : registry.Serves limit) {branch : SchemaNode × Nat}
    (hb : branch.1 ∈ schema.allOf) :
    registry.Ends limit (registry.Room (limit + 1) trail (2 * schema.size))
      fun calls => registry.mergeBranch calls trail pointer pos merged branch := by
  unfold mergeBranch
  obtain ⟨node, index⟩ := branch
  have hsize : node.size < schema.size := SchemaOf.size_branch hb
  cases node with
  | ref path =>
    have hone := SchemaNode.one_le_size (.ref path)
    exact (mergeComponent_ends hs).weaken fun arena hroom => hroom.of_le (by omega)
  | inline inner =>
    refine Ends.ite (fun _ => Ends.pure) fun _ => Ends.ite (fun _ => ?_) fun _ => Ends.throw
    have hinner : inner.size < schema.size := hsize
    exact (hs.merge _ _ _ _ _).weaken fun arena hroom => hroom.of_le (by omega)

theorem mergeSchema_ends (hs : registry.Serves limit) :
    registry.Ends limit (registry.Room (limit + 1) trail (2 * schema.size))
      fun calls => registry.mergeSchema calls trail schema pointer pos merged := by
  unfold mergeSchema
  refine Ends.bind Room.kept (Ends.foldlM _ Room.kept (fun branch hb merged => ?_) merged)
    fun merged => ?_
  · exact mergeBranch_ends hs (List.fst_mem_of_mem_zipIdx hb)
  · refine Ends.bind Room.kept (Ends.foldlM _ Room.kept (fun (name, node) hm merged => ?_) _)
      fun merged => Ends.pure
    have hsize := SchemaOf.size_property hm
    refine Ends.bind Room.kept ((resolveProperty_ends hs).weaken fun arena hroom => ?_)
      fun property => Ends.pure
    exact hroom.of_le (by omega)

theorem buildAllOf_ends (hs : registry.Serves limit) :
    registry.Ends limit (registry.Room (limit + 1) trail (2 * schema.size))
      fun calls => registry.buildAllOf calls trail schema pos := by
  unfold buildAllOf
  refine Ends.ite (fun _ => Ends.throw) fun _ => ?_
  refine (mergeSchema_ends hs).bind Room.kept fun merged => ?_
  exact Ends.ite (fun _ => Ends.pure) fun _ => Ends.pure

theorem unionCases_ends (hs : registry.Serves limit) (branches : List (SchemaNode × Nat)) :
    ∀ cases : List Case, (∀ branch ∈ branches, branch.1 ∈ schema.composition) →
      registry.Ends limit (registry.Room (limit + 1) trail (2 * schema.size))
        fun calls => unionCases calls trail schema pos branches cases := by
  induction branches with
  | nil => exact fun cases _ => Ends.pure
  | cons branch rest ih =>
    obtain ⟨node, index⟩ := branch
    intro cases hb
    have hrest := fun cases => ih cases fun other ho => hb other (List.mem_cons_of_mem _ ho)
    have hsize : node.size < schema.size := SchemaOf.size_composition (hb _ List.mem_cons_self)
    simp only [unionCases]
    refine Ends.ite (fun _ => hrest cases) fun _ => ?_
    refine Ends.bind Room.kept ((hs.resolve _ _ _).weaken fun arena hroom => ?_) fun model => hrest _
    exact hroom.of_le (by omega)

theorem buildUnion_ends (hs : registry.Serves limit) :
    registry.Ends limit (registry.Room (limit + 1) trail (2 * schema.size))
      fun calls => buildUnion calls trail schema pos := by
  unfold buildUnion
  refine (unionCases_ends hs _ [] fun branch hb => List.fst_mem_of_mem_zipIdx hb).bind Room.kept
    fun cases => ?_
  exact Ends.ite (fun _ => Ends.pure) fun _ => Ends.pure

theorem push_ends {p : Arena → Prop} {model : Model} {scope : List String} :
    registry.Ends limit p fun _ => Resolving.push model scope :=
  Ends.of_work _ fun arena => Arena.Recalls.refl arena

theorem buildArray_ends (hs : registry.Serves limit) :
    registry.Ends limit (registry.Room (limit + 1) trail (2 * schema.size))
      fun calls => buildArray calls trail schema pos := by
  unfold buildArray
  cases hi : schema.items with
  | none => exact (push_ends.bind Room.kept fun id => Ends.pure).bind Room.kept fun _ => Ends.pure
  | some items =>
    have hsize := SchemaOf.size_items hi
    refine Ends.bind Room.kept ((hs.resolve _ _ _).weaken fun arena hroom => ?_) fun _ => Ends.pure
    exact hroom.of_le (by omega)

theorem buildMap_ends {value : SchemaNode} (hs : registry.Serves limit)
    (hv : schema.additionalSchema? = some value) :
    registry.Ends limit (registry.Room (limit + 1) trail (2 * schema.size))
      fun calls => buildMap calls trail value pos := by
  unfold buildMap
  have hsize := SchemaOf.size_additional hv
  refine Ends.bind Room.kept ((hs.resolve _ _ _).weaken fun arena hroom => ?_) fun _ => Ends.pure
  exact hroom.of_le (by omega)

theorem classify_ends (hs : registry.Serves limit) {several : Calls → Resolving Model}
    (ho : registry.Ends limit (registry.Room (limit + 1) trail (2 * schema.size)) several) :
    registry.Ends limit (registry.Room (limit + 1) trail (2 * schema.size))
      fun calls => registry.classify calls (several calls) trail schema pos := by
  simp only [classify_eq_buildForm]
  cases hf : registry.form schema with
  | merged => exact buildAllOf_ends hs
  | object => exact buildObject_ends hs
  | array => exact buildArray_ends hs
  | map value => exact buildMap_ends hs (form_eq_map hf)
  | union => exact buildUnion_ends hs
  | several => exact ho
  | plain => exact Ends.lift

theorem buildTypeUnion_ends (hs : registry.Serves limit) :
    registry.Ends limit (registry.Room (limit + 1) trail (2 * schema.size))
      fun calls => registry.buildTypeUnion calls trail schema pos := by
  unfold buildTypeUnion typeCases
  refine (Ends.mapM _ Room.kept fun (type, index) _ => ?_).bind Room.kept fun cases => Ends.pure
  have hsize : SchemaOf.size { schema with types := some (.single type), nullable := none } =
      schema.size := by
    rw [SchemaOf.size_eq, SchemaOf.size_eq]
  rw [← hsize]
  refine Ends.reserve.bind Room.kept fun id => ?_
  refine (classify_ends hs Ends.pure).bind Room.kept fun model => ?_
  exact Ends.fill.bind Room.kept fun _ => Ends.pure

theorem buildSchema_ends (hs : registry.Serves limit) :
    registry.Ends limit (registry.Room (limit + 1) trail (2 * schema.size))
      fun calls => registry.buildSchema calls trail schema pos := by
  unfold buildSchema
  exact classify_ends hs (buildTypeUnion_ends hs)

theorem resolveNode_ends (hs : registry.Serves limit) :
    registry.Ends limit (registry.Room (limit + 1) trail (2 * node.size + 1))
      fun calls => registry.resolveNode calls trail node pos := by
  unfold resolveNode
  have hsize := node.size_bare
  simp only [SchemaNode.unwrap_node]
  cases hbare : node.bare with
  | ref path =>
    have hone := node.one_le_size
    exact (resolveRef_ends hs).weaken fun arena hroom => hroom.of_le (by omega)
  | inline schema =>
    have hschema : schema.size ≤ node.size := by rwa [hbare] at hsize
    refine Ends.weaken (Ends.bind Room.kept Ends.reserve fun id => ?_) fun arena hroom =>
      hroom.of_le (show 2 * schema.size + (limit + 1) ≤ 2 * node.size + 1 + limit by omega)
    refine (hs.build _ _ _).bind Room.kept fun model => ?_
    exact Ends.fill.bind Room.kept fun _ => Ends.pure

/-- All that is done for a call makes calls of smaller rank. -/
theorem step_ends (hs : registry.Serves limit) (call : Call) :
    registry.Ends limit (fun arena => registry.rank arena call ≤ limit + 1)
      fun calls => (registry.step calls).answer call := by
  cases call with
  | resolve trail node pos => exact resolveNode_ends hs
  | build trail schema pos => exact buildSchema_ends hs
  | merge trail schema pointer pos merged => exact mergeSchema_ends hs

theorem one_le_rank (arena : Arena) (call : Call) : 1 ≤ registry.rank arena call := by
  cases call with
  | resolve trail node pos =>
    simp only [rank]
    omega
  | build trail schema pos =>
    have hone := (SchemaNode.inline schema).one_le_size
    simp only [rank, SchemaOf.size]
    omega
  | merge trail schema pointer pos merged =>
    have hone := (SchemaNode.inline schema).one_le_size
    simp only [rank, SchemaOf.size]
    omega

theorem Serves.returns (hs : registry.Serves limit) {call : Call} {arena : Arena}
    (hrank : registry.rank arena call ≤ limit + 1) :
    ∃ result, registry.Returns (limit + 1) ⟨call, arena, result⟩ ∧ arena.Recalls result.2 := by
  obtain ⟨result, ⟨nested, hreturns, hcomes⟩, hrecalls⟩ := step_ends hs call arena hrank
  exact ⟨result, .intro nested hreturns hcomes, hrecalls⟩

theorem serves (registry : Registry) (limit : Nat) : registry.Serves limit := by
  induction limit with
  | zero =>
    intro call arena hrank
    have hone := registry.one_le_rank arena call
    omega
  | succ limit ih =>
    intro call arena hrank
    obtain ⟨result, hreturns, hrecalls⟩ := ih.returns hrank
    refine ⟨result, ⟨[⟨call, arena, result⟩], fun visit hv => ?_, fun calls hm => ?_⟩, hrecalls⟩
    · exact List.mem_singleton.mp hv ▸ hreturns
    · exact hm _ List.mem_cons_self

/-- A call returns with calls nested less deep than any bound on its rank. -/
theorem exists_returns {call : Call} {arena : Arena} (hrank : registry.rank arena call ≤ limit) :
    ∃ result, registry.Returns limit ⟨call, arena, result⟩ := by
  have hone := registry.one_le_rank arena call
  obtain ⟨below, rfl⟩ : ∃ below, limit = below + 1 := ⟨limit - 1, by omega⟩
  obtain ⟨result, hreturns, _⟩ := (registry.serves below).returns hrank
  exact ⟨result, hreturns⟩

theorem comes_componentId (name : String) (arena : Arena) :
    ∃ result, registry.Comes (registry.budget 1) (fun calls => registry.componentId calls {} name
      (Section.schemas.pointer name) (Section.schemas.pointer name)) arena result := by
  have hbudget : registry.depth arena {} + 2 * 1 + 1 ≤ registry.budget 1 := depth_le_budget 1
  have hroom : registry.Room (registry.budget 1) {} 2 arena := by
    unfold Room
    omega
  obtain ⟨result, hcomes, _⟩ := componentId_ends (registry.serves (registry.budget 1)) arena hroom
  exact ⟨result, hcomes⟩

/-- Resolve some components in order, with other nodes left to some calls. -/
def resolveNamesBy (registry : Registry) (calls : Calls) : List String → Arena → Report × Arena
  | [], arena => ([], arena)
  | name :: rest, arena =>
    if Entries.has arena.memo name then registry.resolveNamesBy calls rest arena
    else
      let pointer := Section.schemas.pointer name
      match Resolving.attempt (registry.componentId calls {} name pointer pointer) arena with
      | (.ok _, arena) => registry.resolveNamesBy calls rest arena
      | (.error error, arena) =>
        let (report, arena) :=
          registry.resolveNamesBy calls rest { arena with failed := arena.failed ++ [name] }
        (⟨.component name, error⟩ :: report, arena)

theorem resolveNamesBy_returns (names : List String) : ∀ arena : Arena,
    ∃ nested : List Visit, (∀ visit ∈ nested, registry.Returns (registry.budget 1) visit) ∧
      ∀ calls : Calls, (∀ visit ∈ nested, calls.Meets visit) →
        registry.resolveNamesBy calls names arena = registry.resolveNames names arena := by
  induction names with
  | nil => exact fun arena => ⟨[], fun _ hv => by simp at hv, fun _ _ => rfl⟩
  | cons name rest ih =>
    intro arena
    by_cases hm : Entries.has arena.memo name = true
    · obtain ⟨nested, hreturns, hsame⟩ := ih arena
      refine ⟨nested, hreturns, fun calls hv => ?_⟩
      rw [resolveNamesBy, resolveNames, if_pos hm, if_pos hm]
      exact hsame calls hv
    · obtain ⟨⟨result, after⟩, nested, hreturns, hcomes⟩ := registry.comes_componentId name arena
      have hcomponent : Resolving.outcome (registry.component name) arena = (result, after) :=
        hcomes _ fun visit hv => (hreturns visit hv).meets noCalls (Nat.le_refl _)
      -- A component that fails is cut off before the others are resolved.
      let cut := after.rollback arena.checkpoint
      obtain ⟨later, hreturns', hsame⟩ := ih <| match result with
        | .ok _ => after
        | .error _ => { cut with failed := cut.failed ++ [name] }
      refine ⟨nested ++ later, fun visit hv => ?_, fun calls hv => ?_⟩
      · exact (List.mem_append.mp hv).elim (hreturns visit) (hreturns' visit)
      · have hfirst := hcomes calls fun visit hn => hv visit (List.mem_append_left _ hn)
        have hrest := hsame calls fun visit hn => hv visit (List.mem_append_right _ hn)
        rw [resolveNamesBy, resolveNames, if_neg hm, if_neg hm]
        simp only [Resolving.attempt_eq, hfirst, hcomponent]
        cases result with
        | ok id => exact hrest
        | error error =>
          simp only
          rw [hrest]

/-- Resolving ends on every registry. Each call returns from each arena, with calls nested less deep
than its rank, and comes to one result only; what is run for a node, and for all components one after
the other, is what it comes to in that way. Neither taking off wrappers nor following other names
stops before it is done. -/
theorem calls_return (registry : Registry) :
    (∀ call arena, ∃ result, registry.Returns (registry.rank arena call) ⟨call, arena, result⟩ ∧
      ∀ depth other, registry.Returns depth ⟨call, arena, other⟩ → other = result) ∧
    (∀ node pos arena, registry.Returns (registry.budget node.size)
      ⟨.resolve {} node pos, arena, Resolving.outcome (registry.resolve node pos) arena⟩) ∧
    (∀ arena, ∃ nested : List Visit,
      (∀ visit ∈ nested, registry.Returns (registry.budget 1) visit) ∧
        ∀ calls : Calls, (∀ visit ∈ nested, calls.Meets visit) →
          registry.resolveNamesBy calls (Entries.keys registry.schemas) arena =
            registry.resolveComponents arena) ∧
    (∀ (node : SchemaNode) pointer more,
      SchemaNode.unwrapWithin (node.size + more) node pointer = node.unwrap pointer) ∧
    ∀ path location more,
      registry.writtenComponent (registry.schemas.length + 1 + more) [] path location =
        registry.writtenComponent (registry.schemas.length + 1) [] path location := by
  refine ⟨fun call arena => ?_, fun node pos arena => ?_,
    fun arena => resolveNamesBy_returns _ arena, fun node pointer more => ?_,
    fun path location more => ?_⟩
  · obtain ⟨result, hresult⟩ := exists_returns (Nat.le_refl (registry.rank arena call))
    exact ⟨result, hresult, fun depth other ho => ho.unique hresult⟩
  · have hrank : registry.rank arena (.resolve {} node pos) ≤ registry.budget node.size :=
      depth_le_budget node.size
    obtain ⟨result, hresult⟩ := exists_returns hrank
    have hmeets := hresult.meets noCalls (Nat.le_refl _)
    have hown : Resolving.outcome (registry.resolve node pos) arena = result := hmeets
    rw [hown]
    exact hresult
  · exact SchemaNode.unwrapWithin_eq_unwrap _ _ node pointer (Nat.le_add_right _ _) (Nat.le_refl _)
  · have hroom := roomFor_keys_lt registry []
    exact writtenComponent_congr (p := fun _ => True) (fun _ _ => rfl) (fun _ _ _ _ => trivial)
      _ _ [] path location (fun _ _ => trivial) hroom (by omega)

end Registry

end ApiAtlas
