import ApiAtlas.Proofs.ResolverSideBySide
import ApiAtlas.Proofs.RouteSoundness

namespace ApiAtlas

/-- Two surroundings that differ in their registries only, with those that a pairing is of. -/
structure Surroundings.Alike (pair : Pairing) (around other : Surroundings) : Prop where
  left : around.registry = pair.left
  right : other.registry = pair.right
  parameters : other.components.parameters = around.components.parameters
  requestBodies : other.components.requestBodies = around.components.requestBodies
  responses : other.components.responses = around.components.responses
  naming : other.naming = around.naming
  resolve : ∀ node pos, pair.Follows (fun _ => True) (around.registry.resolve node pos)
    (other.registry.resolve node pos) (Resolved.renumber pair.move)

namespace Surroundings

open Pairing

variable {pair : Pairing} {around other : Surroundings} {errand : Errand} {endpoint : Endpoint}
  {media : MediaType} {pos : Position} {name : String}

theorem effectiveParameters_congr (ha : Alike pair around other) (pointer : String) :
    other.effectiveParameters endpoint pointer = around.effectiveParameters endpoint pointer := by
  unfold effectiveParameters listParameters
  rw [ha.parameters]

theorem resolveInput_follows (ha : Alike pair around other) (listed : Listed) :
    pair.Follows (fun _ => True) (around.resolveInput errand listed)
      (other.resolveInput errand listed) (Input.renumber pair.move) := by
  unfold resolveInput
  obtain ⟨parameter, location⟩ := listed
  simp only
  cases parameter.valueSchema? with
  | some schema =>
    simp only [pure_bind]
    exact (ha.resolve _ _).bind_pure fun _ => rfl
  | none =>
    simp only [pure_bind]
    exact (Registry.push_follows rfl _).bind_pure fun _ => rfl

theorem resolveInputs_follows (ha : Alike pair around other) :
    pair.Follows (fun _ => True) (around.resolveInputs errand endpoint)
      (other.resolveInputs errand endpoint) (List.map (Input.renumber pair.move)) := by
  unfold resolveInputs
  rw [effectiveParameters_congr ha]
  refine Follows.lift_bind fun listed _ => Follows.mapM _ (fun _ _ => trivial)
    (fun item _ => resolveInput_follows ha item) fun item _ => ?_
  rw [← ha.left]
  exact (resolveInput_steady item).weaken (fun _ h => h) fun _ _ _ => trivial

theorem modelOrFreeForm_follows (ha : Alike pair around other) :
    pair.Follows (fun _ => True) (around.modelOrFreeForm media pos)
      (other.modelOrFreeForm media pos) (Resolved.renumber pair.move) := by
  unfold modelOrFreeForm
  cases media.schema with
  | some schema => exact ha.resolve _ _
  | none => exact Registry.freeForm_follows _

theorem optionalModel_follows (ha : Alike pair around other) :
    pair.Follows (fun _ => True) (around.optionalModel media pos)
      (other.optionalModel media pos) (Option.map (Resolved.renumber pair.move)) := by
  unfold optionalModel
  cases media.schema with
  | some schema =>
    simp only [map_eq_pure_bind]
    exact (ha.resolve _ _).bind_pure fun _ => rfl
  | none => exact Follows.pure rfl

theorem formFields_renumber {s t : Arena} (hr : pair.rel s t) {model : Option Resolved}
    (hm : ∀ resolved, model = some resolved → resolved.id < s.slots.length) :
    (formFields s model media).map (FormField.renumber pair.move) =
      formFields t (model.map (Resolved.renumber pair.move)) media := by
  unfold formFields
  cases model with
  | none => rfl
  | some resolved =>
    simp only [Option.map_some, Option.bind_some, Resolved.id_renumber,
      pair.model hr _ (hm resolved rfl)]
    cases s.model? resolved.id with
    | none => rfl
    | some model =>
      cases model with
      | object object =>
        simp only [Option.map_some, Model.renumber, List.map_map]
        rfl
      | _ => rfl

theorem resolvePayload_follows (ha : Alike pair around other) :
    pair.Follows (fun _ => True) (around.resolvePayload name media pos)
      (other.resolvePayload name media pos) (Payload.renumber pair.move) := by
  unfold resolvePayload
  split
  next => exact (modelOrFreeForm_follows ha).bind_pure fun _ => rfl
  next =>
    split
    next => exact (modelOrFreeForm_follows ha).bind_pure fun _ => rfl
    next =>
      split
      next => exact Follows.pure rfl
      next =>
        split
        next =>
          refine Follows.bind (optionalModel_follows ha) (ha.left ▸ optionalModel_steady)
            fun model => ⟨keeps_get_bind fun arena => keeps_pure _, fun s t hs hr hm => ?_⟩
          refine matches_get_bind (matches_pure ?_ hr)
          simp only [Payload.renumber]
          rw [formFields_renumber hr]
          intro resolved he
          exact hs.holds_lt (hm resolved (he ▸ Option.mem_toList.mpr rfl))
        next => exact (optionalModel_follows ha).bind_pure fun _ => rfl

theorem resolveBody_follows (ha : Alike pair around other) (node : Referable RequestBody) :
    pair.Follows (fun _ => True) (around.resolveBody errand node) (other.resolveBody errand node)
      (Bodies.renumber pair.move) := by
  unfold resolveBody
  rw [ha.requestBodies]
  refine Follows.lift_bind fun body _ => ?_
  refine Follows.bind_pure (Follows.mapM (g := fun entry => (entry.1, entry.2.renumber pair.move)) _
    (fun _ _ => trivial) (fun entry _ => ?_) fun entry _ => ?_) fun types => rfl
  · exact (resolvePayload_follows ha).bind_pure fun _ => rfl
  · rw [← ha.left]
    exact (resolvePayload_steady []).bind fun payload => Regime.Runs.pure fun _ _ => trivial

theorem resolveReturn_follows (ha : Alike pair around other) (primary : Bool) (key : String)
    (node : Referable Response) :
    pair.Follows (fun _ => True) (around.resolveReturn errand primary key node)
      (other.resolveReturn errand primary key node)
      fun (status, type) => (status, type.renumber pair.move) := by
  unfold resolveReturn
  rw [ha.responses]
  simp only
  cases Status.parse key with
  | none => exact Follows.throw
  | some status =>
    refine Follows.lift_bind fun response _ => ?_
    cases chosenContent response.content with
    | none =>
      simp only [pure_bind]
      exact Follows.pure rfl
    | some chosen => exact (optionalModel_follows ha).bind_pure fun _ => rfl

theorem resolveReturns_follows (ha : Alike pair around other) (responses : Responses) :
    pair.Follows (fun _ => True) (around.resolveReturns errand responses)
      (other.resolveReturns errand responses) (Returns.renumber pair.move) := by
  unfold resolveReturns
  refine Follows.bind_pure (Follows.mapM (g := fun (status, type) =>
    (status, type.renumber pair.move)) _ (fun _ _ => trivial)
    (fun ((key, node), index) _ => resolveReturn_follows ha _ key node)
    fun ((key, node), index) _ => ?_) fun types => ?_
  · rw [← ha.left]
    exact (resolveReturn_steady _ key node).weaken (fun _ h => h) fun _ _ _ => trivial
  · simp only [Returns.renumber, Entries.foldl_set_map, List.map_nil]

theorem resolveRoute_follows (ha : Alike pair around other) :
    pair.Follows (fun _ => True) (around.resolveRoute endpoint) (other.resolveRoute endpoint)
      (Route.renumber pair.move) := by
  unfold resolveRoute
  rw [ha.naming]
  refine Follows.bind (m := fun _ _ => True) (resolveInputs_follows ha) ?_ fun input => ?_
  · rw [← ha.left]
    exact resolveInputs_steady.weaken (fun _ h => h) fun _ _ _ => trivial
  · simp only
    cases endpoint.operation.requestBody with
    | some node =>
      refine Follows.bind (m := fun _ _ => True) (resolveBody_follows ha node) ?_ fun body => ?_
      · rw [← ha.left]
        exact (resolveBody_steady node).weaken (fun _ h => h) fun _ _ _ => trivial
      · exact (resolveReturns_follows ha _).bind_pure fun _ => rfl
    | none => exact (resolveReturns_follows ha _).bind_pure fun _ => rfl

end Surroundings

end ApiAtlas
