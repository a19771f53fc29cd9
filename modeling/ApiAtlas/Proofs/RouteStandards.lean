import ApiAtlas.Proofs.EveryModelUsed
import ApiAtlas.Proofs.ModelStandards

namespace ApiAtlas

open Resolving

namespace Standard

variable {around : Surroundings} {standard : Standard around.registry}
  {errand : Errand} {endpoint : Endpoint} {media : MediaType} {pos : Position}
  {name : String}

theorem resolve_keeps {node : SchemaNode} (h : standard.fit node) :
    standard.Keeps (around.registry.resolve node pos) :=
  (callsWithin_upheld (around.registry.budget node.size)).resolve {} node pos h

theorem keeps_push {model : Model} (hm : standard.meets model) (scope : List String) :
    standard.Keeps (push model scope) :=
  keeps_place (keeps_pure model) (Yields.pure hm) id scope

theorem optionalModel_keeps (h : ∀ node, media.schema = some node → standard.fit node) :
    standard.Keeps (around.optionalModel media pos) := by
  unfold Surroundings.optionalModel
  cases hs : media.schema with
  | some node =>
    simp only [map_eq_pure_bind]
    exact keeps_bind (resolve_keeps (h node hs)) fun _ => keeps_pure _
  | none => exact keeps_pure _

theorem modelOrFreeForm_keeps (h : ∀ node, media.schema = some node → standard.fit node) :
    standard.Keeps (around.modelOrFreeForm media pos) := by
  unfold Surroundings.modelOrFreeForm
  cases hs : media.schema with
  | some node => exact resolve_keeps (h node hs)
  | none => exact keeps_freeForm pos.scope

theorem payloadOf_keeps {kind : Media.Kind}
    (h : kind ≠ .octetStream → ∀ node, media.schema = some node → standard.fit node) :
    standard.Keeps (around.payloadOf kind media pos) := by
  unfold Surroundings.payloadOf
  cases kind with
  | json =>
    simp only [map_eq_pure_bind]
    exact keeps_bind (modelOrFreeForm_keeps (h (by decide))) fun _ => keeps_pure _
  | xml =>
    simp only [map_eq_pure_bind]
    exact keeps_bind (modelOrFreeForm_keeps (h (by decide))) fun _ => keeps_pure _
  | octetStream => exact keeps_pure _
  | multipart =>
    exact keeps_bind (optionalModel_keeps (h (by decide))) fun _ => keeps_get_bind fun _ => keeps_pure _
  | other =>
    simp only [map_eq_pure_bind]
    exact keeps_bind (optionalModel_keeps (h (by decide))) fun _ => keeps_pure _

section
variable (hasks : ∀ node, around.Asks endpoint node → standard.fit node)
include hasks

theorem resolveInputs_keeps (htext : standard.meets (.primitive (.string none)))
    (hp : errand.pointer = endpoint.pointer) :
    standard.Keeps (around.resolveInputs errand endpoint) := by
  unfold Surroundings.resolveInputs
  rw [hp]
  refine Regime.Runs.lift_bind (fun all hall => ?_) fun _ _ _ _ => id
  refine Regime.Runs.mapM_true fun listed hm => ?_
  unfold Surroundings.resolveInput
  simp only
  cases hs : listed.1.valueSchema? with
  | some node =>
    simp only [pure_bind]
    exact keeps_bind (resolve_keeps (hasks node (.input hall hm hs))) fun _ => keeps_pure _
  | none =>
    simp only [pure_bind]
    exact keeps_bind (keeps_push htext errand.scope) fun _ => keeps_pure _

theorem resolveBody_keeps {node : Referable RequestBody}
    (hs : endpoint.operation.requestBody = some node) :
    standard.Keeps (around.resolveBody errand node) := by
  unfold Surroundings.resolveBody
  refine Regime.Runs.lift_bind (fun body hb => ?_) fun _ _ _ _ => id
  refine keeps_bind (Regime.Runs.mapM_true fun content hm => ?_) fun _ => keeps_pure _
  simp only [Surroundings.resolvePayload_eq]
  exact keeps_bind (payloadOf_keeps fun hread schema ht =>
    hasks schema (.body hs hb hm hread ht)) fun _ => keeps_pure _

theorem resolveReturn_keeps (primary : Bool) {pair : String × Referable Response}
    (hm : pair ∈ endpoint.operation.responses.entries) :
    standard.Keeps (around.resolveReturn errand primary pair.1 pair.2) := by
  unfold Surroundings.resolveReturn
  simp only
  cases Status.parse pair.1 with
  | none => exact keeps_throw _
  | some status =>
    refine Regime.Runs.lift_bind (fun response hr => ?_) fun _ _ _ _ => id
    cases hc : Surroundings.chosenContent response.content with
    | none =>
      simp only [pure_bind]
      exact keeps_pure _
    | some chosen =>
      exact keeps_bind (optionalModel_keeps fun schema ht => hasks schema (.answer hm hr hc ht))
        fun _ => keeps_pure _

theorem resolveReturns_keeps :
    standard.Keeps (around.resolveReturns errand endpoint.operation.responses) := by
  unfold Surroundings.resolveReturns
  refine keeps_bind (Regime.Runs.mapM_true fun item hm => ?_) fun _ => keeps_pure _
  exact resolveReturn_keeps hasks (item.2 == 0) (List.fst_mem_of_mem_zipIdx hm)

theorem resolveRoute_keeps (htext : standard.meets (.primitive (.string none))) :
    standard.Keeps (around.resolveRoute endpoint) := by
  unfold Surroundings.resolveRoute
  refine keeps_bind (resolveInputs_keeps hasks htext rfl) fun input => ?_
  simp only
  cases hs : endpoint.operation.requestBody with
  | some node =>
    exact keeps_bind (resolveBody_keeps hasks hs) fun body =>
      keeps_bind (resolveReturns_keeps hasks) fun _ => keeps_pure _
  | none =>
    simp only [pure_bind]
    exact keeps_bind (resolveReturns_keeps hasks) fun _ => keeps_pure _

end

/-- Operations resolved one after another leave only models up to the standard. -/
theorem only_routes {endpoints : List Endpoint} {arena after : Arena} {routes : List Route}
    {report : Report} (h : around.Sweeps endpoints arena routes report after)
    (htext : standard.meets (.primitive (.string none)))
    (hasks : ∀ endpoint ∈ endpoints, ∀ node, around.Asks endpoint node → standard.fit node)
    (harena : arena.Only standard.meets) : after.Only standard.meets := by
  induction h with
  | done => exact harena
  | kept _ he _ _ _ ih =>
    obtain ⟨hfirst, hrest⟩ := List.forall_mem_cons.mp hasks
    have hroute := resolveRoute_keeps hfirst htext
    exact ih hrest (only_of_keeps hroute harena (attempt_eq_ok.mp he))
  | failed _ _ ih => exact ih (List.forall_mem_cons.mp hasks).2 harena

/-- All models of a document are up to a standard for which all schemas are fit that its operations
ask for. -/
theorem meets_of_get? {settings : Settings} {document : Document}
    (standard : Standard (document.surroundings settings).registry)
    (htext : standard.meets (.primitive (.string none)))
    (hasks : ∀ endpoint ∈ document.endpoints, ∀ node,
      (document.surroundings settings).Asks endpoint node → standard.fit node)
    {id : ModelId} {model : Model} (h : (document.resolve settings).2.1.get? id = some model) :
    standard.meets model := by
  have hfilled := (Document.finalArena_rested settings document).filled
  have honly := only_routes (Document.sweeps_routes settings document) htext hasks
    standard.only_resolveComponents
  rw [Document.resolve_eq, Arena.get?_finish hfilled] at h
  exact honly id model h

end Standard

end ApiAtlas
