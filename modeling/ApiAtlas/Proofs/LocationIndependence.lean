import ApiAtlas.Proofs.CallTree
import ApiAtlas.Proofs.ResolverSoundness

namespace ApiAtlas

/-- The error without its location. -/
def ResolveError.unplaced : ResolveError → ResolveError
  | .unresolvedRef reference _ => .unresolvedRef reference ""
  | .invalidRefFormat reference _ => .invalidRefFormat reference ""
  | .circularRef chain _ => .circularRef chain ""
  | .failedRef reference _ => .failedRef reference ""
  | .schemaShape reason _ => .schemaShape reason ""

namespace Resolving

variable {α β γ : Type} {work other third : Resolving α} {next next' : α → Resolving β}

/-- What the work comes to from an arena, without the location of an error. -/
def verdict (work : Resolving α) (arena : Arena) : Except ResolveError α × Arena :=
  ((outcome work arena).1.mapError ResolveError.unplaced, (outcome work arena).2)

/-- From every arena both pieces of work come to the same, up to the location of an error. -/
def Agrees (work other : Resolving α) : Prop := ∀ arena, verdict work arena = verdict other arena

theorem Agrees.refl (work : Resolving α) : work.Agrees work := fun _ => rfl

theorem Agrees.symm (h : work.Agrees other) : other.Agrees work := fun arena => (h arena).symm

theorem Agrees.trans (h : work.Agrees other) (h' : other.Agrees third) : work.Agrees third :=
  fun arena => (h arena).trans (h' arena)

theorem Agrees.throw {error error' : ResolveError} (h : error.unplaced = error'.unplaced) :
    (throw error : Resolving α).Agrees (throw error') :=
  fun arena => congrArg (fun reason => (Except.error reason, arena)) h

theorem Agrees.lift {result result' : Except ResolveError α}
    (h : result.mapError ResolveError.unplaced = result'.mapError ResolveError.unplaced) :
    (liftM result : Resolving α).Agrees (liftM result') := by
  intro arena
  simp only [verdict, outcome_lift, h]

theorem Agrees.eq_ok {arena after : Arena} {a : α} (h : work.Agrees other) (ho : outcome work arena = (.ok a, after)) :
    outcome other arena = (.ok a, after) := by
  have hv := h arena
  unfold verdict at hv
  rw [ho] at hv
  cases hr : outcome other arena with
  | mk result last =>
    rw [hr] at hv
    cases result with
    | ok b =>
      cases hv
      rfl
    | error error => cases hv

theorem Agrees.eq_ok_iff {arena after : Arena} {a : α} (h : work.Agrees other) :
    outcome work arena = (.ok a, after) ↔ outcome other arena = (.ok a, after) :=
  ⟨h.eq_ok, h.symm.eq_ok⟩

theorem verdict_bind (work : Resolving α) (next : α → Resolving β) (arena : Arena) :
    verdict (work >>= next) arena =
      match verdict work arena with
      | (.ok a, after) => verdict (next a) after
      | (.error reason, after) => (.error reason, after) := by
  unfold verdict
  rw [outcome_bind]
  obtain ⟨result, after⟩ := outcome work arena
  cases result <;> rfl

theorem Agrees.bind (hw : work.Agrees other) (hn : ∀ a, (next a).Agrees (next' a)) :
    (work >>= next).Agrees (other >>= next') := by
  intro arena
  rw [verdict_bind, verdict_bind, hw arena]
  obtain ⟨result, after⟩ := verdict other arena
  cases result with
  | ok a => exact hn a after
  | error reason => rfl

theorem Agrees.then (hn : ∀ a, (next a).Agrees (next' a)) :
    (work >>= next).Agrees (work >>= next') :=
  (Agrees.refl work).bind hn

theorem Agrees.mapM {each each' : γ → Resolving β} {items : List γ}
    (h : ∀ item, (each item).Agrees (each' item)) :
    (items.mapM each).Agrees (items.mapM each') := by
  induction items with
  | nil => exact Agrees.refl _
  | cons item rest ih =>
    rw [List.mapM_cons, List.mapM_cons]
    exact (h item).bind fun b => ih.bind fun bs => Agrees.refl _

theorem Agrees.foldlM {step step' : β → γ → Resolving β} {items : List γ}
    (h : ∀ b item, (step b item).Agrees (step' b item)) (b : β) :
    (items.foldlM step b).Agrees (items.foldlM step' b) := by
  induction items generalizing b with
  | nil => exact Agrees.refl _
  | cons item rest ih =>
    rw [List.foldlM_cons, List.foldlM_cons]
    exact (h b item).bind ih

end Resolving

open Resolving

/-- Calls that come to the same wherever nodes are said to stand. -/
structure Calls.Placeless (calls : Calls) : Prop where
  resolve : ∀ trail node context scope place place',
    (calls.resolve trail node ⟨context, scope, place⟩).Agrees
      (calls.resolve trail node ⟨context, scope, place'⟩)
  build : ∀ trail schema context scope place place',
    (calls.build trail schema ⟨context, scope, place⟩).Agrees
      (calls.build trail schema ⟨context, scope, place'⟩)
  merge : ∀ trail schema pointer pointer' context scope place place' merged,
    (calls.merge trail schema pointer ⟨context, scope, place⟩ merged).Agrees
      (calls.merge trail schema pointer' ⟨context, scope, place'⟩ merged)

namespace Registry

variable {registry : Registry} {calls : Calls} {trail : Trail} {schema : Schema}
  {node other : SchemaNode} {name path reference location location' pointer pointer' : String}
  {context : Context} {scope : List String} {place place' : String} {merged : Merged}

theorem componentId_agrees : (registry.componentId calls trail name reference location).Agrees
    (registry.componentId calls trail name reference location') := by
  rw [componentId_eq, componentId_eq]
  refine Agrees.then fun arena => ?_
  cases Entries.get? arena.memo name with
  | some id => exact Agrees.refl _
  | none =>
    simp only
    split
    next => exact Agrees.throw rfl
    next =>
      split
      next => exact Agrees.throw rfl
      next =>
        cases Entries.get? registry.schemas name with
        | none => exact Agrees.throw rfl
        | some body => exact Agrees.refl _

theorem resolveRef_agrees : (registry.resolveRef calls trail path location).Agrees
    (registry.resolveRef calls trail path location') := by
  unfold resolveRef
  refine (Agrees.lift ?_).bind fun name => componentId_agrees.bind fun id => Agrees.refl _
  rw [Section.parseName_eq, Section.parseName_eq]
  cases Section.schemas.named? path <;> rfl

theorem writtenComponent_unplaced (fuel : Nat) (seen : List String) :
    (registry.writtenComponent fuel seen path location).mapError ResolveError.unplaced =
      (registry.writtenComponent fuel seen path location').mapError ResolveError.unplaced := by
  cases fuel with
  | zero => rfl
  | succ fuel =>
    simp only [writtenComponent, Section.parseName_eq]
    cases Section.schemas.named? path with
    | none => rfl
    | some name =>
      simp only [bind, Except.bind]
      split
      next => rfl
      next =>
        cases Entries.get? registry.schemas name with
        | none => rfl
        | some body => cases body <;> rfl

/-- What is built without calls fails for the same reason wherever it stands. -/
theorem plainModel_unplaced : (registry.plainModel schema ⟨context, scope, place⟩).mapError
    ResolveError.unplaced =
      (registry.plainModel schema ⟨context, scope, place'⟩).mapError ResolveError.unplaced := by
  unfold plainModel
  split
  next => rfl
  next values _ _ =>
    unfold buildEnum
    split <;> rfl
  next => rfl

section Step
variable (hc : calls.Placeless)
include hc

theorem resolveProperty_agrees :
    (resolveProperty calls trail pointer ⟨context, scope, place⟩ name node).Agrees
      (resolveProperty calls trail pointer' ⟨context, scope, place'⟩ name node) := by
  unfold resolveProperty
  exact (hc.resolve _ _ _ _ _ _).bind fun model => Agrees.refl _

theorem buildObject_agrees : (buildObject calls trail schema ⟨context, scope, place⟩).Agrees
    (buildObject calls trail schema ⟨context, scope, place'⟩) := by
  unfold buildObject
  refine (Agrees.mapM fun (name, node) => ?_).bind fun properties => Agrees.refl _
  exact (resolveProperty_agrees hc).bind fun property => Agrees.refl _

theorem mergeUnfinished_agrees :
    (registry.mergeUnfinished calls trail path location ⟨context, scope, place⟩ merged).Agrees
      (registry.mergeUnfinished calls trail path location' ⟨context, scope, place'⟩ merged) := by
  rw [mergeUnfinished_eq, mergeUnfinished_eq]
  refine (Agrees.lift (writtenComponent_unplaced _ _)).bind fun (owner, body) => ?_
  simp only
  split
  next => exact Agrees.throw rfl
  next =>
    split
    next => exact Agrees.throw rfl
    next => exact hc.merge _ _ _ _ _ _ _ _ _

theorem mergeComponent_agrees :
    (registry.mergeComponent calls trail path location ⟨context, scope, place⟩ merged).Agrees
      (registry.mergeComponent calls trail path location' ⟨context, scope, place'⟩ merged) := by
  unfold mergeComponent
  refine resolveRef_agrees.bind fun target => Agrees.then fun arena => ?_
  split
  next => exact Agrees.refl _
  next => exact Agrees.refl _
  next => exact Agrees.throw rfl
  next => exact mergeUnfinished_agrees hc

theorem mergeBranch_agrees (branch : SchemaNode × Nat) :
    (registry.mergeBranch calls trail pointer ⟨context, scope, place⟩ merged branch).Agrees
      (registry.mergeBranch calls trail pointer' ⟨context, scope, place'⟩ merged branch) := by
  obtain ⟨node, index⟩ := branch
  unfold mergeBranch
  cases node with
  | ref path => exact mergeComponent_agrees hc
  | inline schema =>
    simp only
    split
    next => exact Agrees.refl _
    next =>
      split
      next => exact hc.merge _ _ _ _ _ _ _ _ _
      next => exact Agrees.throw rfl

theorem mergeSchema_agrees :
    (registry.mergeSchema calls trail schema pointer ⟨context, scope, place⟩ merged).Agrees
      (registry.mergeSchema calls trail schema pointer' ⟨context, scope, place'⟩ merged) := by
  unfold mergeSchema
  refine (Agrees.foldlM (fun _ => mergeBranch_agrees hc) merged).bind fun merged => ?_
  refine (Agrees.foldlM (fun merged (name, node) => ?_) _).bind fun merged => Agrees.refl _
  exact (resolveProperty_agrees hc).bind fun property => Agrees.refl _

theorem buildAllOf_agrees : (registry.buildAllOf calls trail schema ⟨context, scope, place⟩).Agrees
    (registry.buildAllOf calls trail schema ⟨context, scope, place'⟩) := by
  unfold buildAllOf
  split
  next => exact Agrees.throw rfl
  next => exact (mergeSchema_agrees hc).bind fun merged => Agrees.refl _

theorem unionCases_agrees (branches : List (SchemaNode × Nat)) : ∀ cases : List Case,
    (unionCases calls trail schema ⟨context, scope, place⟩ branches cases).Agrees
      (unionCases calls trail schema ⟨context, scope, place'⟩ branches cases) := by
  induction branches with
  | nil => exact fun cases => Agrees.refl _
  | cons branch rest ih =>
    obtain ⟨node, index⟩ := branch
    intro cases
    rw [unionCases, unionCases]
    split
    next => exact ih cases
    next => exact (hc.resolve _ _ _ _ _ _).bind fun model => ih _

theorem buildUnion_agrees : (buildUnion calls trail schema ⟨context, scope, place⟩).Agrees
    (buildUnion calls trail schema ⟨context, scope, place'⟩) := by
  unfold buildUnion
  exact (unionCases_agrees hc _ []).bind fun cases => Agrees.refl _

theorem buildArray_agrees : (buildArray calls trail schema ⟨context, scope, place⟩).Agrees
    (buildArray calls trail schema ⟨context, scope, place'⟩) := by
  unfold buildArray
  cases schema.items with
  | none => exact Agrees.refl _
  | some items => exact (hc.resolve _ _ _ _ _ _).bind fun element => Agrees.refl _

theorem buildForm_agrees {several several' : Resolving Model} (hs : several.Agrees several')
    (form : Form) :
    (registry.buildForm calls several trail schema ⟨context, scope, place⟩ form).Agrees
      (registry.buildForm calls several' trail schema ⟨context, scope, place'⟩ form) := by
  cases form with
  | merged => exact buildAllOf_agrees hc
  | object => exact buildObject_agrees hc
  | array => exact buildArray_agrees hc
  | map value => exact (hc.resolve _ _ _ _ _ _).bind fun element => Agrees.refl _
  | union => exact buildUnion_agrees hc
  | several => exact hs
  | plain => exact Agrees.lift plainModel_unplaced

theorem buildTypeUnion_agrees :
    (registry.buildTypeUnion calls trail schema ⟨context, scope, place⟩).Agrees
      (registry.buildTypeUnion calls trail schema ⟨context, scope, place'⟩) := by
  unfold buildTypeUnion typeCases
  simp only [classify_eq_buildForm]
  refine (Agrees.mapM fun (type, index) => ?_).bind fun cases => Agrees.refl _
  exact Agrees.then fun id =>
    (buildForm_agrees hc (Agrees.refl _) _).bind fun model => Agrees.refl _

theorem buildSchema_agrees :
    (registry.buildSchema calls trail schema ⟨context, scope, place⟩).Agrees
      (registry.buildSchema calls trail schema ⟨context, scope, place'⟩) := by
  rw [buildSchema_eq_buildForm, buildSchema_eq_buildForm]
  exact buildForm_agrees hc (buildTypeUnion_agrees hc) _

/-- Nodes that are the same without their wrappers resolve to the same. -/
theorem resolveNode_agrees (h : node.bare = other.bare) :
    (registry.resolveNode calls trail node ⟨context, scope, place⟩).Agrees
      (registry.resolveNode calls trail other ⟨context, scope, place'⟩) := by
  unfold resolveNode
  simp only [SchemaNode.unwrap_node, h]
  cases other.bare with
  | ref path => exact resolveRef_agrees
  | inline schema =>
    exact Agrees.then fun id => (hc.build _ _ _ _ _ _).bind fun model => Agrees.refl _

theorem step_placeless : (registry.step calls).Placeless :=
  ⟨fun _ _ _ _ _ _ => resolveNode_agrees hc rfl, fun _ _ _ _ _ _ => buildSchema_agrees hc,
    fun _ _ _ _ _ _ _ _ _ => mergeSchema_agrees hc⟩

end Step

theorem noCalls_placeless : noCalls.Placeless :=
  ⟨fun _ _ _ _ _ _ => Agrees.throw rfl, fun _ _ _ _ _ _ => Agrees.throw rfl,
    fun _ _ _ _ _ _ _ _ _ => Agrees.throw rfl⟩

/-- Calls nested to any depth come to the same wherever nodes are said to stand. -/
theorem callsWithin_placeless (depth : Nat) : (registry.callsWithin noCalls depth).Placeless := by
  induction depth with
  | zero =>
    rw [callsWithin_zero]
    exact noCalls_placeless
  | succ depth ih =>
    rw [callsWithin_succ]
    exact step_placeless ih

end Registry

end ApiAtlas
