import ApiAtlas.Proofs.ExactRollback
import ApiAtlas.Proofs.LocationIndependence
import ApiAtlas.Proofs.Nullability
import ApiAtlas.Proofs.Termination

namespace ApiAtlas

/-- The schema adds nothing to one of its branches but whether `null` is admitted. -/
inductive SchemaOf.WrapsOnly (schema : Schema) (inner : SchemaNode) : Bool → Prop
  /-- All other branches of the composition are `null`, and there are some. -/
  | nullable (before after : List SchemaNode) (properties : schema.properties = [])
      (allOf : schema.allOf = []) (branches : schema.composition = before ++ inner :: after)
      (wrapped : inner.isNullSchema = false) (others : before ++ after ≠ [])
      (nulls : ∀ other ∈ before ++ after, other.isNullSchema = true) : WrapsOnly schema inner true
  /-- All other branches of `allOf` are annotations. -/
  | sole (before after : List SchemaNode) (properties : schema.properties = [])
      (composition : schema.composition = []) (enumValues : schema.enumValues = none)
      (constValue : schema.constValue = none) (items : schema.items = none)
      (additional : schema.additional = none) (branches : schema.allOf = before ++ inner :: after)
      (wrapped : inner.isAnnotation = false)
      (annotations : ∀ other ∈ before ++ after, other.isAnnotation = true) :
      WrapsOnly schema inner (schema.isNullable ||
        (before ++ after).any fun other => other.schema?.any SchemaOf.isNullable)

/-- The node is the inner one, or wraps it in one or more wrappers. The flag tells whether a wrapper
admits `null`. -/
inductive SchemaNode.WrapsAround (inner : SchemaNode) : SchemaNode → Bool → Prop
  | here : WrapsAround inner inner false
  | wrapper {schema : Schema} {middle : SchemaNode} {declared more : Bool}
      (outer : schema.WrapsOnly middle declared) (rest : WrapsAround inner middle more) :
      WrapsAround inner (.inline schema) (declared || more)

theorem filter_sole {α : Type} {p : α → Bool} {before after : List α} {only : α}
    (ho : p only = true) (hn : ∀ other ∈ before ++ after, p other = false) :
    (before ++ only :: after).filter p = [only] := by
  have hbefore : before.filter p = [] := List.filter_eq_nil_iff.mpr fun other hm => by
    simp [hn other (List.mem_append_left _ hm)]
  have hafter : after.filter p = [] := List.filter_eq_nil_iff.mpr fun other hm => by
    simp [hn other (List.mem_append_right _ hm)]
  rw [List.filter_append, List.filter_cons_of_pos ho, hbefore, hafter, List.nil_append]

namespace SchemaNode

variable {node inner : SchemaNode} {schema : Schema} {peeled : Peeled} {declared : Bool}

theorem admitsNullWithin_eq_admitsNull {fuel : Nat} (h : node.size ≤ fuel) (pointer : String) :
    admitsNullWithin fuel node pointer = node.admitsNull := by
  have hown := admitsNullWithin_iff node.size node "" (Nat.le_refl _)
  exact Bool.eq_iff_iff.mpr ((admitsNullWithin_iff fuel node pointer h).trans hown.symm)

theorem admitsNull_wrapper (h : schema.peel? = some peeled) : (inline schema).admitsNull =
    (schema.isNullable || peeled.nullable || peeled.node.admitsNull) := by
  have hless : peeled.node.size < (inline schema).size := SchemaOf.size_peel h
  obtain ⟨fuel, hfuel⟩ : ∃ fuel, (inline schema).size = fuel + 1 :=
    ⟨_, (Nat.succ_pred (by omega)).symm⟩
  have hwrapper := admitsNullWithin_wrapper h fuel ""
  rw [admitsNullWithin_eq_admitsNull (Nat.le_of_eq hfuel),
    admitsNullWithin_eq_admitsNull (by omega)] at hwrapper
  rw [Bool.eq_iff_iff, hwrapper]
  simp [or_assoc]

/-- What the schema of a node says of itself is admitted. -/
theorem admitsNull_of_isNullable (h : node.schema?.any SchemaOf.isNullable = true) :
    node.admitsNull = true := by
  cases node with
  | ref path => cases h
  | inline schema =>
    cases hp : schema.peel? with
    | some peeled =>
      have hs : schema.isNullable = true := h
      rw [admitsNull_wrapper hp, hs]
      rfl
    | none => exact (admitsNullWithin_bare hp _ _).mpr (.inl h)

end SchemaNode

namespace SchemaOf

variable {schema : Schema} {inner : SchemaNode} {before after : List SchemaNode} {declared : Bool}

theorem nullableWrapper?_of_branches (branches : schema.composition = before ++ inner :: after)
    (wrapped : inner.isNullSchema = false) (others : before ++ after ≠ [])
    (nulls : ∀ other ∈ before ++ after, other.isNullSchema = true) :
    schema.nullableWrapper? = some inner := by
  have hsole : schema.composition.filter (fun other => !other.isNullSchema) = [inner] := by
    rw [branches]
    exact filter_sole (by simp [wrapped]) fun other hm => by simp [nulls other hm]
  have hnull : schema.composition.any SchemaNode.isNullSchema = true := by
    obtain ⟨other, hm⟩ := List.exists_mem_of_ne_nil _ others
    have hsub : (before ++ after).Sublist schema.composition := by
      rw [branches]
      exact (List.sublist_cons_self inner after).append_left before
    exact List.any_eq_true.mpr ⟨other, hsub.subset hm, nulls other hm⟩
  rw [nullableWrapper?, if_pos hnull, hsole]

theorem soleStructural?_of_branches (composition : schema.composition = [])
    (enumValues : schema.enumValues = none) (constValue : schema.constValue = none)
    (items : schema.items = none) (additional : schema.additional = none)
    (branches : schema.allOf = before ++ inner :: after) (wrapped : inner.isAnnotation = false)
    (annotations : ∀ other ∈ before ++ after, other.isAnnotation = true) :
    schema.soleStructural? = some (inner, before.length) := by
  have hnone : (schema.composition.isEmpty && schema.enumValues.isNone &&
      schema.constValue.isNone && schema.items.isNone && schema.additional.isNone) = true := by
    simp [composition, enumValues, constValue, items, additional]
  have hplaces : schema.allOf.zipIdx =
      before.zipIdx ++ (inner, before.length) :: after.zipIdx (before.length + 1) := by
    rw [branches, List.zipIdx_append, List.zipIdx_cons, Nat.zero_add]
  have hsole : schema.allOf.zipIdx.filter (fun pair => !SchemaNode.isAnnotation pair.1) =
      [(inner, before.length)] := by
    rw [hplaces]
    refine filter_sole (by simp [wrapped]) fun pair hm => ?_
    have hfst : pair.1 ∈ before ++ after := by
      rcases List.mem_append.mp hm with hb | ha
      · exact List.mem_append_left _ (List.fst_mem_of_mem_zipIdx hb)
      · exact List.mem_append_right _ (List.fst_mem_of_mem_zipIdx ha)
    simp [annotations _ hfst]
  rw [soleStructural?, if_pos hnone, hsole]

/-- A schema that wraps only a node is peeled down to it. -/
theorem WrapsOnly.peel? (h : schema.WrapsOnly inner declared) :
    ∃ peeled, schema.peel? = some peeled ∧ peeled.node = inner ∧
      (schema.isNullable || peeled.nullable || inner.admitsNull) =
        (declared || inner.admitsNull) := by
  cases h with
  | nullable before after properties allOf branches wrapped others nulls =>
    have hinner := nullableWrapper?_of_branches branches wrapped others nulls
    refine ⟨⟨schema.compositionKeyword,
      (schema.composition.findIdx? fun branch => !branch.isNullSchema).getD 0, inner, true⟩, ?_,
      rfl, by simp⟩
    simp only [SchemaOf.peel?, properties, allOf, hinner]
    rfl
  | sole before after properties composition enumValues constValue items additional branches wrapped
      annotations =>
    have hinner := soleStructural?_of_branches composition enumValues constValue items additional
      branches wrapped annotations
    have hsome : schema.allOf.isEmpty = false := by simp [branches]
    refine ⟨⟨"allOf", before.length, inner,
      schema.allOf.any fun branch => branch.schema?.any SchemaOf.isNullable⟩, ?_, rfl, ?_⟩
    · simp only [SchemaOf.peel?, properties, hsome, hinner]
      rfl
    · -- What the wrapped schema says of itself is among what it admits.
      have hown := @SchemaNode.admitsNull_of_isNullable inner
      cases hi : inner.schema?.any SchemaOf.isNullable with
      | true => simp [hown hi]
      | false => simp [branches, hi]

end SchemaOf

namespace SchemaNode.WrapsAround

variable {node inner : SchemaNode} {declared : Bool}

theorem bare_eq (h : inner.WrapsAround node declared) : node.bare = inner.bare := by
  induction h with
  | here => rfl
  | wrapper outer rest ih =>
    obtain ⟨peeled, hp, rfl, -⟩ := outer.peel?
    rw [bare_wrapper hp, ih]

theorem admitsNull_eq (h : inner.WrapsAround node declared) :
    node.admitsNull = (declared || inner.admitsNull) := by
  induction h with
  | here => rfl
  | wrapper outer rest ih =>
    obtain ⟨peeled, hp, rfl, hnull⟩ := outer.peel?
    rw [admitsNull_wrapper hp, hnull, ih, Bool.or_assoc]

theorem size_le (h : inner.WrapsAround node declared) : inner.size ≤ node.size := by
  induction h with
  | here => exact Nat.le_refl _
  | wrapper outer rest ih =>
    obtain ⟨peeled, hp, rfl, -⟩ := outer.peel?
    exact Nat.le_trans ih (Nat.le_of_lt (SchemaOf.size_peel hp))

end SchemaNode.WrapsAround

namespace Registry

variable {registry : Registry} {node inner : SchemaNode} {declared : Bool} {arena : Arena}
  {name target : String} {id : ModelId}

theorem budget_mono {size larger : Nat} (h : size ≤ larger) :
    registry.budget size ≤ registry.budget larger := by
  unfold budget
  exact Nat.mul_le_mul_left _ (by omega)

/-- With more room than it needs a node resolves to the same. -/
theorem outcome_resolve_of_le {depth : Nat} (h : registry.budget node.size ≤ depth)
    (pos : Position) (arena : Arena) :
    Resolving.outcome ((registry.callsWithin noCalls depth).resolve {} node pos) arena =
      Resolving.outcome (registry.resolve node pos) arena := by
  have hrank : registry.rank arena (.resolve {} node pos) ≤ registry.budget node.size :=
    depth_le_budget node.size
  obtain ⟨result, hresult⟩ := exists_returns hrank
  have hown : Resolving.outcome (registry.resolve node pos) arena = result :=
    hresult.meets noCalls (Nat.le_refl _)
  have hdeep : Resolving.outcome ((registry.callsWithin noCalls depth).resolve {} node pos) arena =
      result := hresult.meets noCalls h
  rw [hown, hdeep]

theorem resolveWithin_agrees (h : node.bare = inner.bare) (depth : Nat) (trail : Trail)
    (pos : Position) (pointer : String) :
    ((registry.callsWithin noCalls depth).resolve trail node pos).Agrees
      ((registry.callsWithin noCalls depth).resolve trail inner (pos.at pointer)) := by
  cases depth with
  | zero =>
    rw [callsWithin_zero]
    exact Resolving.Agrees.throw rfl
  | succ depth =>
    rw [callsWithin_succ]
    exact resolveNode_agrees (callsWithin_placeless depth) h

theorem resolve_agrees (h : node.bare = inner.bare) (hsize : inner.size ≤ node.size)
    (pos : Position) (pointer : String) :
    (registry.resolve node pos).Agrees (registry.resolve inner (pos.at pointer)) := by
  intro arena
  let calls := registry.callsWithin noCalls (registry.budget node.size)
  have hroom : Resolving.outcome (calls.resolve {} inner (pos.at pointer)) arena =
      Resolving.outcome (registry.resolve inner (pos.at pointer)) arena :=
    outcome_resolve_of_le (budget_mono hsize) _ arena
  have hwithin : Resolving.verdict (registry.resolve node pos) arena =
      Resolving.verdict (calls.resolve {} inner (pos.at pointer)) arena :=
    resolveWithin_agrees h _ {} pos pointer arena
  rw [hwithin, Resolving.verdict, hroom]
  rfl

theorem resolve_placeless (node : SchemaNode) (context : Context) (scope : List String)
    (place place' : String) : (registry.resolve node ⟨context, scope, place⟩).Agrees
      (registry.resolve node ⟨context, scope, place'⟩) :=
  resolve_agrees rfl (Nat.le_refl _) ⟨context, scope, place⟩ place'

theorem componentId_of_memo {calls : Calls} {trail : Trail} {reference location : String}
    (h : Entries.get? arena.memo name = some id) : Resolving.outcome
      (registry.componentId calls trail name reference location) arena = (.ok id, arena) := by
  rw [componentId_eq]
  rw [Resolving.outcome_get_bind]
  simp only [h]
  rfl

theorem resolveRef_of_memo {calls : Calls} {trail : Trail} {path location : String}
    (hp : Section.schemas.named? path = some target)
    (h : Entries.get? arena.memo target = some id) : Resolving.outcome
      (registry.resolveRef calls trail path location) arena = (.ok (.ref target id), arena) := by
  unfold resolveRef
  rw [Section.parseName_eq, hp, Resolving.outcome_bind, Resolving.outcome_lift]
  simp only
  rw [Resolving.outcome_bind, componentId_of_memo h]
  rfl

/-- Another name for a component that is met already takes its place, and nothing else is done. -/
theorem component_of_alias (ha : Arena.AliasOf registry name target)
    (ht : Entries.get? arena.memo target = some id) (hf : name ∉ arena.failed)
    (hn : Entries.get? arena.memo name = none) :
    Resolving.outcome (registry.component name) arena = (.ok id, arena.remember name id) := by
  obtain ⟨body, path, hb, hbare, hpath⟩ := ha
  obtain ⟨depth, hdepth⟩ : ∃ depth, registry.budget 1 = depth + 1 := by
    have hbudget : registry.depth arena {} + 2 * 1 + 1 ≤ registry.budget 1 := depth_le_budget 1
    exact ⟨registry.budget 1 - 1, by omega⟩
  have hresolve (trail : Trail) (pos : Position) : Resolving.outcome
      ((registry.callsWithin noCalls (registry.budget 1)).resolve trail (.ref path) pos) arena =
        (.ok (.ref target id), arena) := by
    rw [hdepth, callsWithin_succ]
    simp only [step, resolveNode, SchemaNode.unwrap_node, SchemaNode.bare_ref]
    exact resolveRef_of_memo hpath ht
  have hfailed : arena.failed.contains name = false := by simpa using hf
  unfold component
  rw [componentId_eq]
  rw [Resolving.outcome_get_bind]
  simp only [hn, hb, hfailed, SchemaNode.unwrap_node, hbare]
  simp only [List.contains_nil, Bool.false_eq_true, ↓reduceIte]
  rw [Resolving.outcome_bind, hresolve]
  rfl

/-- A component has the place of another one in every arena that a resolver comes to: as soon as it
has a place, whenever it is resolved, and at once where the other one has been met. -/
def SharesPlace (registry : Registry) (name target : String) : Prop :=
  ∀ steps : List Step, let arena := registry.reached steps
    (∀ id, Entries.get? arena.memo name = some id → Entries.get? arena.memo target = some id) ∧
    (∀ id after, Resolving.outcome (registry.component name) arena = (.ok id, after) →
      Entries.get? after.memo name = some id ∧ Entries.get? after.memo target = some id) ∧
    ∀ id, Entries.get? arena.memo target = some id → name ∉ arena.failed →
      Resolving.outcome (registry.component name) arena = (.ok id, arena.remember name id)

theorem sharesPlace_of_alias (ha : Arena.AliasOf registry name target) :
    registry.SharesPlace name target := by
  intro steps arena
  have horderly : arena.Orderly registry := orderly_reached steps
  refine ⟨fun id hn => horderly.aliased name id target hn ha, fun id after ho => ?_,
    fun id ht hf => ?_⟩
  · have hadds : (appending registry).Runs (fun _ => True) (registry.component name)
        fun id after => Entries.get? after.memo name = some id :=
      componentId_adds (callsWithin_appending (registry.budget 1))
    obtain ⟨hafter, -, hname⟩ :=
      (Resolving.ensures_iff.mp (hadds arena horderly trivial)).1 id after ho
    exact ⟨hname, hafter.aliased name id target hname ha⟩
  · cases hn : Entries.get? arena.memo name with
    | none => exact component_of_alias ha ht hf hn
    | some place =>
      have hplace := horderly.aliased name place target hn ha
      cases Option.some.inj (ht.symm.trans hplace)
      rw [Arena.remember_of_get? hn]
      exact componentId_of_memo hn

/-- Wrappers are transparent, however many there are. From every state the node resolves to what the
wrapped one resolves to, wherever the two stand, and leaves the same arena; only the location of an
error may differ. It admits `null` if a wrapper says so or the wrapped node does. A component that
wraps a reference has the place of the component referred to. -/
theorem wrapper_transparent (registry : Registry) (h : inner.WrapsAround node declared) :
    (∀ depth trail pos pointer,
      ((registry.callsWithin noCalls depth).resolve trail node pos).Agrees
        ((registry.callsWithin noCalls depth).resolve trail inner (pos.at pointer))) ∧
    (∀ pos pointer, (registry.resolve node pos).Agrees (registry.resolve inner (pos.at pointer))) ∧
    node.admitsNull = (declared || inner.admitsNull) ∧
    ∀ name path target, Entries.get? registry.schemas name = some node → inner = .ref path →
      Section.schemas.named? path = some target → registry.SharesPlace name target := by
  refine ⟨resolveWithin_agrees h.bare_eq, resolve_agrees h.bare_eq h.size_le, h.admitsNull_eq, ?_⟩
  intro name path target hb hi hp
  have hbare : node.bare = .ref path := by rw [h.bare_eq, hi, SchemaNode.bare_ref]
  exact sharesPlace_of_alias ⟨node, path, hb, hbare, hp⟩

/-- `null` beside `allOf` of a reference and a description. -/
def maybePet : SchemaNode :=
  .inline {
    anyOf := [.inline { types := some (.single .null) },
      .inline {
        allOf := [.ref "#/components/schemas/Pet", .inline { description := some "guest" }] }] }

theorem maybePet_wrapsAround :
    (SchemaNode.ref "#/components/schemas/Pet").WrapsAround maybePet true :=
  .wrapper (.nullable [_] [] rfl rfl rfl rfl (by simp) (by decide))
    (.wrapper (.sole [] [_] rfl rfl rfl rfl rfl rfl rfl rfl (by decide)) .here)

theorem wrapper_transparent_maybePet :
    let registry : Registry := ⟨[("Guest", maybePet), ("Pet", .inline {})], []⟩
    (∀ pos, (registry.resolve maybePet pos).Agrees
      (registry.resolve (.ref "#/components/schemas/Pet") (pos.at ""))) ∧
      maybePet.admitsNull = true ∧ registry.SharesPlace "Guest" "Pet" := by
  intro registry
  obtain ⟨-, hresolve, hnull, hshares⟩ := wrapper_transparent registry maybePet_wrapsAround
  exact ⟨fun pos => hresolve pos "", hnull, hshares "Guest" _ "Pet" rfl rfl (by decide +kernel)⟩

end Registry

end ApiAtlas
