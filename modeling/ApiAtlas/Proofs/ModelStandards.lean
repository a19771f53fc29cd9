import ApiAtlas.Proofs.CallTree
import ApiAtlas.Proofs.Demands
import ApiAtlas.Proofs.PlainComponents
import ApiAtlas.Proofs.ResolverSoundness

namespace ApiAtlas

namespace Resolving

variable {α β : Type} {work : Resolving α} {next : α → Resolving β} {p : α → Prop} {q : β → Prop}

/-- Whatever the work comes to is so. -/
def Yields (work : Resolving α) (p : α → Prop) : Prop :=
  ∀ arena a after, outcome work arena = (.ok a, after) → p a

theorem Yields.pure {a : α} (h : p a) : (pure a : Resolving α).Yields p := by
  intro arena b after he
  cases he
  exact h

theorem Yields.throw {error : ResolveError} : (throw error : Resolving α).Yields p := by
  intro arena a after he
  cases he

theorem Yields.lift {result : Except ResolveError α} (h : ∀ a, result = .ok a → p a) :
    (liftM result : Resolving α).Yields p := by
  intro arena a after he
  rw [outcome_lift] at he
  exact h a (Prod.mk.inj he).1

theorem Yields.bind (hw : work.Yields p) (hn : ∀ a, p a → (next a).Yields q) :
    (work >>= next).Yields q := by
  intro arena b last he
  obtain ⟨a, after, ho, hb⟩ := outcome_bind_eq_ok.mp he
  exact hn a (hw arena a after ho) after b last hb

theorem Yields.lift_bind {result : Except ResolveError α}
    (hn : ∀ a, result = .ok a → (next a).Yields q) : (liftM result >>= next).Yields q :=
  (Yields.lift fun _ h => h).bind hn

theorem yields_true : work.Yields fun _ => True := fun _ _ _ _ => trivial

theorem Yields.last (hn : ∀ a, (next a).Yields q) : (work >>= next).Yields q :=
  yields_true.bind fun a _ => hn a

theorem Yields.mono {q : α → Prop} (hw : work.Yields p) (h : ∀ a, p a → q a) : work.Yields q :=
  fun arena a after he => h a (hw arena a after he)

/-- One after the other, pieces of work come to what belongs to their items. -/
theorem Yields.mapM {each : α → Resolving β} {related : α → β → Prop}
    (h : ∀ a, (each a).Yields (related a)) :
    ∀ items : List α, (items.mapM each).Yields (List.Forall₂ related items)
  | [] => Yields.pure .nil
  | a :: rest => by
    rw [List.mapM_cons]
    exact (h a).bind fun b hb => (mapM h rest).bind fun results hr => Yields.pure (.cons hb hr)

/-- What can be told of each piece of work beforehand can be told of them all. -/
theorem Yields.mapM_map {γ : Type} {each : α → Resolving β} {told : α → γ} {read : β → γ}
    (h : ∀ a, (each a).Yields fun b => read b = told a) (items : List α) :
    (items.mapM each).Yields fun results => results.map read = items.map told := by
  refine (Yields.mapM h items).mono fun results hr => ?_
  induction hr with
  | nil => rfl
  | cons hb _ ih => rw [List.map_cons, List.map_cons, hb, ih]

end Resolving

open Resolving

/-- Work that keeps to a regime comes to what it comes to at all. -/
theorem Regime.Runs.yields {α : Type} {regime : Regime} {work : Resolving α} {p : α → Prop}
    {before : Arena → Prop} {q : α → Arena → Prop} (h : regime.Runs before work q)
    (hy : work.Yields p) :
    regime.Runs before work fun a after => q a after ∧ p a := by
  intro arena hh hb
  obtain ⟨hok, hfail⟩ := ensures_iff.mp (h arena hh hb)
  refine ensures_iff.mpr ⟨fun a after he => ?_, hfail⟩
  obtain ⟨hholds, hleads, hq⟩ := hok a after he
  exact ⟨hholds, hleads, hq, hy arena a after he⟩

/-- All models of the arena are so. -/
def Arena.Only (p : Model → Prop) (arena : Arena) : Prop :=
  ∀ id model, arena.model? id = some model → p model

namespace Arena

variable {p : Model → Prop} {arena : Arena} {model : Model}

theorem only_empty : ({} : Arena).Only p := fun _ _ h => by simp [model?] at h

theorem Only.reserve (h : arena.Only p) (scope : List String) : (arena.reserve scope).2.Only p := by
  intro id model hm
  rw [model?_reserve] at hm
  exact h id model hm

theorem Only.fill (h : arena.Only p) (hm : p model) (id : ModelId) :
    (arena.fill id model).Only p := by
  intro place other ho
  simp only [Arena.model?, Arena.fill, List.getElem?_set] at ho
  split at ho
  next =>
    split at ho
    next => exact Option.some.inj ho ▸ hm
    next => cases ho
  next => exact h place other ho

theorem Only.rollback (h : arena.Only p) (checkpoint : Checkpoint) :
    (arena.rollback checkpoint).Only p := by
  intro id model hm
  simp only [Arena.model?, Arena.rollback, List.getElem?_take] at hm
  split at hm
  next => exact h id model hm
  next => cases hm

end Arena

/-- Work that leaves only such models where it finds only such, whether it succeeds or fails. -/
def keeping (p : Model → Prop) : Regime where
  holds _ := True
  leads before after := before.Only p → after.Only p
  fails before after := before.Only p → after.Only p
  refl _ := id
  trans h h' := h' ∘ h
  fails_after h h' := h' ∘ h

/-- What all models are like that are built of the nodes of some kind, which are closed under what
is built within them. -/
structure Standard (registry : Registry) where
  fit : SchemaNode → Prop
  meets : Model → Prop
  component : ∀ name node, Entries.get? registry.schemas name = some node → fit node
  property : ∀ {schema : Schema}, fit (.inline schema) → ∀ pair ∈ schema.properties, fit pair.2
  branch : ∀ {schema : Schema}, fit (.inline schema) → ∀ node ∈ schema.allOf, fit node
  case : ∀ {schema : Schema}, fit (.inline schema) → ∀ node ∈ schema.composition, fit node
  items : ∀ {schema : Schema}, fit (.inline schema) → ∀ node, schema.items = some node → fit node
  value : ∀ {schema : Schema}, fit (.inline schema) →
    ∀ node, schema.additionalSchema? = some node → fit node
  type : ∀ {schema : Schema}, fit (.inline schema) → ∀ type, fit (.inline (schema.only type))
  freeForm : meets .freeForm
  typed : ∀ depth trail schema pos, fit (.inline schema) → Yields
    (registry.buildTypeUnion (registry.callsWithin Registry.noCalls depth) trail schema pos) meets
  built : ∀ depth several trail schema pos, fit (.inline schema) → Yields several meets → Yields
    (registry.buildForm (registry.callsWithin Registry.noCalls depth) several trail schema pos
      (registry.form schema)) meets

namespace Standard

variable {registry : Registry} {standard : Standard registry} {α β γ : Type}
  {work : Resolving α} {next : α → Resolving β}

/-- Work that leaves only models up to the standard. -/
abbrev Keeps (standard : Standard registry) (work : Resolving α) : Prop :=
  (keeping standard.meets).Runs (fun _ => True) work fun _ _ => True

theorem keeps_pure (a : α) : standard.Keeps (pure a) := Regime.Runs.pure fun _ _ => trivial

theorem keeps_throw (error : ResolveError) : standard.Keeps (throw error : Resolving α) :=
  Regime.Runs.throw fun _ _ => id

theorem keeps_lift (result : Except ResolveError α) : standard.Keeps (liftM result) :=
  Regime.Runs.lift (fun _ _ _ _ => trivial) fun _ _ _ _ => id

theorem keeps_bind (hw : standard.Keeps work) (hn : ∀ a, standard.Keeps (next a)) :
    standard.Keeps (work >>= next) :=
  Regime.Runs.bind hw hn

theorem keeps_get_bind {rest : Arena → Resolving β} (hr : ∀ arena, standard.Keeps (rest arena)) :
    standard.Keeps (get >>= rest) :=
  fun arena _ _ => ensures_get_bind (hr arena arena trivial trivial)

theorem keeps_reserve (scope : List String) : standard.Keeps (reserve scope) :=
  fun _ _ _ => ⟨trivial, fun h => h.reserve scope, trivial⟩

theorem keeps_remember (name : String) (id : ModelId) :
    standard.Keeps (modify fun arena => arena.remember name id : Resolving Unit) :=
  fun _ _ _ => ⟨trivial, fun h => h, trivial⟩

theorem keeps_fill {model : Model} (hm : standard.meets model) (id : ModelId) :
    standard.Keeps (fill id model) :=
  fun _ _ _ => ⟨trivial, fun h => h.fill hm id, trivial⟩

theorem keeps_bind_yields {p : α → Prop} (hw : standard.Keeps work) (hy : work.Yields p)
    (hn : ∀ a, p a → standard.Keeps (next a)) : standard.Keeps (work >>= next) :=
  (Regime.Runs.yields hw hy).bind fun a arena hh hp => hn a hp.2 arena hh trivial

/-- A place is reserved, a model is built, and the model is put at the place. -/
theorem keeps_place {build : Resolving Model} (hb : standard.Keeps build)
    (hy : build.Yields standard.meets) (answer : ModelId → α) (scope : List String) :
    standard.Keeps (do
      let id ← reserve scope
      let model ← build
      fill id model
      pure (answer id)) :=
  keeps_bind (keeps_reserve scope) fun id => keeps_bind_yields hb hy fun _ hm =>
    keeps_bind (keeps_fill hm id) fun _ => keeps_pure _

theorem keeps_freeForm (scope : List String) : standard.Keeps (Resolving.freeForm scope) :=
  keeps_bind (keeps_place (keeps_pure .freeForm) (Yields.pure standard.freeForm) id scope)
    fun _ => keeps_pure _

/-- Calls that keep the standard for nodes that are fit. -/
structure Upheld (standard : Standard registry) (calls : Calls) : Prop where
  resolve : ∀ trail node pos, standard.fit node → standard.Keeps (calls.resolve trail node pos)
  build : ∀ trail schema pos, standard.fit (.inline schema) →
    standard.Keeps (calls.build trail schema pos) ∧
      (calls.build trail schema pos).Yields standard.meets
  merge : ∀ trail schema pointer pos merged, standard.fit (.inline schema) →
    standard.Keeps (calls.merge trail schema pointer pos merged)

variable {calls : Calls} {trail : Trail} {schema : Schema} {node : SchemaNode} {pos : Position}
  {name path pointer location reference : String} {merged : Merged}

theorem fit_bare (h : standard.fit node) : standard.fit node.bare := by
  induction node using SchemaNode.peel_induction with
  | ref path =>
    rw [SchemaNode.bare_ref]
    exact h
  | bare schema hp =>
    rw [SchemaNode.bare_inline hp]
    exact h
  | wrapper schema peeled hp ih =>
    rw [SchemaNode.bare_wrapper hp]
    refine ih ?_
    cases (SchemaOf.wraps_of_peel? hp).2 with
    | sole _ branch => exact standard.branch h _ (List.fst_mem_of_mem_zipIdx branch)
    | null _ branch => exact standard.case h _ (List.fst_mem_of_mem_zipIdx branch)

section Step
variable (hc : standard.Upheld calls)
include hc

theorem componentId_keeps :
    standard.Keeps (registry.componentId calls trail name reference location) := by
  rw [Registry.componentId_eq]
  refine keeps_get_bind fun arena => ?_
  cases Entries.get? arena.memo name with
  | some id => exact keeps_pure id
  | none =>
    simp only
    split
    next => exact keeps_throw _
    next =>
      split
      next => exact keeps_throw _
      next =>
        cases hb : Entries.get? registry.schemas name with
        | none => exact keeps_throw _
        | some body =>
          have hfit := standard.fit_bare (standard.component name body hb)
          simp only [SchemaNode.unwrap_node]
          cases hbare : body.bare with
          | ref path =>
            rw [hbare] at hfit
            exact keeps_bind (hc.resolve _ _ _ hfit) fun target =>
              keeps_bind (keeps_remember _ _) fun _ => keeps_pure _
          | inline schema =>
            rw [hbare] at hfit
            obtain ⟨hkeeps, hyields⟩ := hc.build {} schema ⟨.named name, [], _⟩ hfit
            exact keeps_bind (keeps_reserve _) fun id => keeps_bind (keeps_remember _ _) fun _ =>
              keeps_bind_yields hkeeps hyields fun model hm =>
                keeps_bind (keeps_fill hm id) fun _ => keeps_pure _

theorem resolveRef_keeps : standard.Keeps (registry.resolveRef calls trail path location) := by
  unfold Registry.resolveRef
  exact keeps_bind (keeps_lift _) fun name =>
    keeps_bind (componentId_keeps hc) fun id => keeps_pure _

theorem resolveProperty_keeps (h : standard.fit node) :
    standard.Keeps (Registry.resolveProperty calls trail pointer pos name node) := by
  unfold Registry.resolveProperty
  exact keeps_bind (hc.resolve _ _ _ h) fun model => keeps_pure _

theorem buildObject_keeps (h : standard.fit (.inline schema)) :
    standard.Keeps (Registry.buildObject calls trail schema pos) := by
  unfold Registry.buildObject
  refine keeps_bind (Regime.Runs.mapM_true fun pair hm => ?_) fun properties => keeps_pure _
  have hfit : standard.fit pair.2 := standard.property h pair hm
  exact keeps_bind (resolveProperty_keeps hc hfit) fun property => keeps_pure _

theorem mergeUnfinished_keeps :
    standard.Keeps (registry.mergeUnfinished calls trail path location pos merged) := by
  rw [Registry.mergeUnfinished_eq]
  refine Regime.Runs.lift_bind (fun written hw => ?_) fun _ _ _ _ => id
  obtain ⟨owner, body⟩ := written
  obtain ⟨_, _, hwritten⟩ := Lookup.writtenAs_of_ok _ hw
  have hfit : standard.fit (.inline body) := standard.component owner _ hwritten.found
  simp only
  split
  next => exact keeps_throw _
  next =>
    split
    next => exact keeps_throw _
    next => exact hc.merge _ _ _ _ _ hfit

theorem mergeComponent_keeps :
    standard.Keeps (registry.mergeComponent calls trail path location pos merged) := by
  unfold Registry.mergeComponent
  refine keeps_bind (resolveRef_keeps hc) fun target => keeps_get_bind fun arena => ?_
  split
  next => exact keeps_pure _
  next => exact keeps_pure _
  next => exact keeps_throw _
  next => exact mergeUnfinished_keeps hc

theorem mergeBranch_keeps {branch : SchemaNode × Nat} (h : standard.fit branch.1) :
    standard.Keeps (registry.mergeBranch calls trail pointer pos merged branch) := by
  obtain ⟨node, index⟩ := branch
  unfold Registry.mergeBranch
  cases node with
  | ref path => exact mergeComponent_keeps hc
  | inline schema =>
    simp only
    split
    next => exact keeps_pure _
    next =>
      split
      next => exact hc.merge _ _ _ _ _ h
      next => exact keeps_throw _

theorem mergeSchema_keeps (h : standard.fit (.inline schema)) :
    standard.Keeps (registry.mergeSchema calls trail schema pointer pos merged) := by
  unfold Registry.mergeSchema
  refine keeps_bind (Regime.Runs.foldlM_true (fun branch hm merged => ?_) merged) fun merged => ?_
  · exact mergeBranch_keeps hc (standard.branch h _ (List.fst_mem_of_mem_zipIdx hm))
  · refine keeps_bind (Regime.Runs.foldlM_true (fun pair hm merged => ?_) _) fun _ => keeps_pure _
    have hfit : standard.fit pair.2 := standard.property h pair hm
    exact keeps_bind (resolveProperty_keeps hc hfit) fun property => keeps_pure _

theorem buildAllOf_keeps (h : standard.fit (.inline schema)) :
    standard.Keeps (registry.buildAllOf calls trail schema pos) := by
  unfold Registry.buildAllOf
  split
  next => exact keeps_throw _
  next =>
    refine keeps_bind (mergeSchema_keeps hc h) fun merged => ?_
    split <;> exact keeps_pure _

theorem unionCases_keeps (h : standard.fit (.inline schema)) (branches : List (SchemaNode × Nat)) :
    ∀ cases : List Case, (∀ branch ∈ branches, branch.1 ∈ schema.composition) →
      standard.Keeps (Registry.unionCases calls trail schema pos branches cases) := by
  induction branches with
  | nil => exact fun cases _ => keeps_pure cases
  | cons branch rest ih =>
    intro cases hb
    have hrest := fun cases => ih cases fun other ho => hb other (List.mem_cons_of_mem _ ho)
    have hfit : standard.fit branch.1 := standard.case h _ (hb branch List.mem_cons_self)
    rw [Registry.unionCases]
    split
    next => exact hrest cases
    next => exact keeps_bind (hc.resolve _ _ _ hfit) fun model => hrest _

theorem buildUnion_keeps (h : standard.fit (.inline schema)) :
    standard.Keeps (Registry.buildUnion calls trail schema pos) := by
  unfold Registry.buildUnion
  refine keeps_bind (unionCases_keeps hc h _ [] fun branch hm => List.fst_mem_of_mem_zipIdx hm)
    fun cases => ?_
  split <;> exact keeps_pure _

theorem buildArray_keeps (h : standard.fit (.inline schema)) :
    standard.Keeps (Registry.buildArray calls trail schema pos) := by
  unfold Registry.buildArray
  cases hi : schema.items with
  | none => exact keeps_bind (keeps_freeForm _) fun element => keeps_pure _
  | some items =>
    exact keeps_bind (hc.resolve _ _ _ (standard.items h items hi)) fun element => keeps_pure _

theorem buildForm_keeps (h : standard.fit (.inline schema)) {several : Resolving Model}
    (hs : standard.Keeps several) :
    standard.Keeps
      (registry.buildForm calls several trail schema pos (registry.form schema)) := by
  cases hf : registry.form schema with
  | merged => exact buildAllOf_keeps hc h
  | object => exact buildObject_keeps hc h
  | array => exact buildArray_keeps hc h
  | map value =>
    have hfit : standard.fit value := standard.value h value (Registry.form_eq_map hf)
    exact keeps_bind (hc.resolve _ _ _ hfit) fun element => keeps_pure _
  | union => exact buildUnion_keeps hc h
  | several => exact hs
  | plain => exact keeps_lift _

theorem buildTypeUnion_keeps (h : standard.fit (.inline schema))
    (hy : ∀ trail schema pos, standard.fit (.inline schema) → Yields (registry.buildForm calls
      (pure .freeForm) trail schema pos (registry.form schema)) standard.meets) :
    standard.Keeps (registry.buildTypeUnion calls trail schema pos) := by
  unfold Registry.buildTypeUnion Registry.typeCases
  simp only [Registry.classify_eq_buildForm]
  refine keeps_bind (Regime.Runs.mapM_true fun pair _ => ?_) fun cases => keeps_pure _
  have hfit : standard.fit (.inline (schema.only pair.1)) := standard.type h pair.1
  exact keeps_place (buildForm_keeps hc hfit (keeps_pure _)) (hy _ _ _ hfit) _ _

theorem resolveNode_keeps (h : standard.fit node) :
    standard.Keeps (registry.resolveNode calls trail node pos) := by
  have hfit := fit_bare h
  unfold Registry.resolveNode
  simp only [SchemaNode.unwrap_node]
  cases hbare : node.bare with
  | ref path => exact resolveRef_keeps hc
  | inline schema =>
    rw [hbare] at hfit
    obtain ⟨hkeeps, hyields⟩ :=
      hc.build trail schema (pos.at (node.unwrap pos.pointer).pointer) hfit
    exact keeps_place hkeeps hyields _ _

end Step

/-- Calls nested to any depth keep the standard. -/
theorem callsWithin_upheld (depth : Nat) :
    standard.Upheld (registry.callsWithin Registry.noCalls depth) := by
  induction depth with
  | zero =>
    rw [Registry.callsWithin_zero]
    exact ⟨fun _ _ _ _ => keeps_throw _, fun _ _ _ _ => ⟨keeps_throw _, Yields.throw⟩,
      fun _ _ _ _ _ _ => keeps_throw _⟩
  | succ depth ih =>
    rw [Registry.callsWithin_succ]
    refine ⟨fun trail node pos => resolveNode_keeps ih, fun trail schema pos h => ?_,
      fun trail schema pointer pos merged => mergeSchema_keeps ih⟩
    simp only [Registry.step, Registry.buildSchema_eq_buildForm]
    have hplain := fun trail schema pos (h : standard.fit (.inline schema)) =>
      standard.built depth _ trail schema pos h (Yields.pure standard.freeForm)
    exact ⟨buildForm_keeps ih h (buildTypeUnion_keeps ih h hplain),
      standard.built depth _ trail schema pos h (standard.typed depth trail schema pos h)⟩

theorem only_of_keeps {arena after : Arena} {result : Except ResolveError α}
    (hw : standard.Keeps work) (h : arena.Only standard.meets)
    (ho : outcome work arena = (result, after)) : after.Only standard.meets := by
  have hruns := ensures_iff.mp (hw arena trivial trivial)
  cases result with
  | ok a => exact (hruns.1 a after ho).2.1 h
  | error error => exact hruns.2 error after ho h

theorem only_resolveNames (names : List String) : ∀ {arena : Arena}, arena.Only standard.meets →
    (registry.resolveNames names arena).2.Only standard.meets := by
  induction names with
  | nil => exact id
  | cons name rest ih =>
    intro arena h
    have hw : standard.Keeps (registry.component name) := componentId_keeps (callsWithin_upheld _)
    rw [Registry.resolveNames]
    split
    next => exact ih h
    next =>
      rw [attempt_eq]
      cases ho : outcome (registry.component name) arena with
      | mk result after =>
        have hafter := only_of_keeps hw h ho
        cases result with
        | ok id => exact ih hafter
        | error error => exact ih (hafter.rollback arena.checkpoint)

/-- All models are up to the standard once all components are resolved. -/
theorem only_resolveComponents : (registry.resolveComponents {}).2.Only standard.meets :=
  only_resolveNames _ Arena.only_empty

end Standard

end ApiAtlas
