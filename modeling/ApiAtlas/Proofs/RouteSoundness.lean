import ApiAtlas.Proofs.EntryOrder
import ApiAtlas.Atlas
import ApiAtlas.Proofs.ResolverSoundness

namespace ApiAtlas

/-- All that a list refers to is held. -/
def AllHeld (resolved : List Resolved) (arena : Arena) : Prop := ∀ r ∈ resolved, arena.Holds r

theorem AllHeld.mono {resolved : List Resolved} {before after : Arena} (hg : before.Grows after)
    (h : AllHeld resolved before) : AllHeld resolved after :=
  fun r hr => hg.holds (h r hr)

theorem AllHeld.singleton {resolved : Resolved} {arena : Arena} (h : arena.Holds resolved) :
    AllHeld [resolved] arena :=
  fun _ hr => List.mem_singleton.mp hr ▸ h

theorem AllHeld.append {first second : List Resolved} {arena : Arena} (h : AllHeld first arena)
    (h' : AllHeld second arena) : AllHeld (first ++ second) arena :=
  fun r hr => (List.mem_append.mp hr).elim (h r) (h' r)

theorem AllHeld.nil (arena : Arena) : AllHeld [] arena := fun _ hr => by simp at hr

/-- Results that hold what they are made of hold it together. -/
theorem mapM_steady {registry : Registry} {α β : Type} {each : α → Resolving β}
    (parts : β → List Resolved) (items : List α)
    (he : ∀ item, (growing registry).Runs (fun _ => True) (each item)
      fun b => AllHeld (parts b)) :
    (growing registry).Runs (fun _ => True) (items.mapM each)
      fun results => AllHeld (results.flatMap parts) := by
  have hkept : ∀ {b : β} {before after : Arena}, (growing registry).leads before after →
      AllHeld (parts b) before → AllHeld (parts b) after := fun hl => AllHeld.mono hl.1
  refine (Regime.Runs.mapM (q := fun _ b => AllHeld (parts b)) items (fun _ h => h)
    (fun hl hh => hkept hl hh) fun item _ => he item).weaken (fun _ h => h) ?_
  intro results after h r hr
  obtain ⟨b, hb, hm⟩ := List.mem_flatMap.mp hr
  obtain ⟨_, _, hh⟩ := forall₂_of_mem_right h hb
  exact hh r hm

namespace Surroundings

variable {around : Surroundings} {errand : Errand} {endpoint : Endpoint} {media : MediaType}
  {pos : Position} {name : String}

theorem resolveInput_steady (listed : Listed) :
    (growing around.registry).Runs (fun _ => True) (around.resolveInput errand listed)
      fun input => AllHeld [input.model] := by
  unfold resolveInput
  obtain ⟨parameter, location⟩ := listed
  simp only
  cases parameter.valueSchema? with
  | some schema =>
    simp only [pure_bind]
    exact Registry.resolve_steady.bind fun model =>
      Regime.Runs.pure fun _ h => AllHeld.singleton h.1
  | none =>
    simp only [pure_bind]
    exact (Registry.push_steady errand.scope rfl).bind fun id =>
      Regime.Runs.pure fun _ h => AllHeld.singleton h

theorem resolveInputs_steady :
    (growing around.registry).Runs (fun _ => True) (around.resolveInputs errand endpoint)
      fun inputs => AllHeld (inputs.map Input.model) := by
  unfold resolveInputs
  refine Regime.Runs.lift_bind (fun listed _ => ?_) fun _ arena _ _ => Arena.Grows.refl arena
  refine (mapM_steady (fun input : Input => [input.model]) listed resolveInput_steady).weaken
    (fun _ h => h) fun inputs after h => ?_
  rwa [List.map_eq_flatMap]

theorem modelOrFreeForm_steady :
    (growing around.registry).Runs (fun _ => True) (around.modelOrFreeForm media pos)
      fun resolved => AllHeld [resolved] := by
  unfold modelOrFreeForm
  cases media.schema with
  | some schema =>
    exact Registry.resolve_steady.weaken (fun _ h => h) fun _ _ h => AllHeld.singleton h.1
  | none =>
    exact (Registry.freeForm_steady pos.scope).weaken (fun _ h => h) fun _ _ h =>
      AllHeld.singleton h

theorem optionalModel_steady :
    (growing around.registry).Runs (fun _ => True) (around.optionalModel media pos)
      fun resolved => AllHeld resolved.toList := by
  unfold optionalModel
  cases media.schema with
  | some schema =>
    simp only [map_eq_pure_bind]
    exact Registry.resolve_steady.bind fun resolved =>
      Regime.Runs.pure fun _ h => AllHeld.singleton h.1
  | none => exact Regime.Runs.pure fun arena _ => AllHeld.nil arena

theorem formFields_held {arena : Arena} (hs : arena.Sound around.registry)
    (model : Option Resolved) :
    AllHeld ((formFields arena model media).map FormField.model) arena := by
  unfold formFields
  split
  next object hm =>
    obtain ⟨resolved, _, ho⟩ := Option.bind_eq_some_iff.mp hm
    intro r hr
    simp only [List.map_map, List.mem_map, Function.comp_apply] at hr
    obtain ⟨property, hp, rfl⟩ := hr
    exact hs.linked _ _ ho _ (List.mem_map_of_mem hp)
  next => exact AllHeld.nil arena

theorem resolvePayload_steady (extensions : Entries Json) :
    (growing around.registry).Runs (fun _ => True) (around.resolvePayload name media pos)
      fun payload => AllHeld (Body.models ⟨payload, extensions⟩) := by
  unfold resolvePayload
  split
  next => exact modelOrFreeForm_steady.bind fun resolved => Regime.Runs.pure fun _ h => h
  next =>
    split
    next => exact modelOrFreeForm_steady.bind fun resolved => Regime.Runs.pure fun _ h => h
    next =>
      split
      next => exact Regime.Runs.pure fun arena _ => AllHeld.nil arena
      next =>
        split
        next =>
          refine optionalModel_steady.bind fun model arena hs hm => ?_
          exact Resolving.ensures_get_bind (Resolving.ensures_pure
            ⟨hs, (growing around.registry).refl arena, hm.append (formFields_held hs model)⟩)
        next => exact optionalModel_steady.bind fun model => Regime.Runs.pure fun _ h => h

theorem resolveBody_steady (node : Referable RequestBody) :
    (growing around.registry).Runs (fun _ => True) (around.resolveBody errand node)
      fun bodies => AllHeld (bodies.types.flatMap fun (_, body) => body.models) := by
  unfold resolveBody
  refine Regime.Runs.lift_bind (fun body _ => ?_) fun _ arena _ _ => Arena.Grows.refl arena
  refine (mapM_steady (fun pair : String × Body => pair.2.models) _ fun pair => ?_).bind
    fun types => Regime.Runs.pure fun _ h => h
  exact (resolvePayload_steady _).bind fun payload => Regime.Runs.pure fun _ h => h

theorem resolveReturn_steady (primary : Bool) (key : String) (node : Referable Response) :
    (growing around.registry).Runs (fun _ => True) (around.resolveReturn errand primary key node)
      fun pair => AllHeld pair.2.model.toList := by
  unfold resolveReturn
  simp only
  cases Status.parse key with
  | none => exact Regime.Runs.throw fun arena _ => Arena.Grows.refl arena
  | some status =>
    refine Regime.Runs.lift_bind (fun response _ => ?_) fun _ arena _ _ => Arena.Grows.refl arena
    cases chosenContent response.content with
    | none =>
      simp only [pure_bind]
      exact Regime.Runs.pure fun arena _ => AllHeld.nil arena
    | some chosen =>
      exact optionalModel_steady.bind fun model => Regime.Runs.pure fun _ h => h

theorem resolveReturns_steady (responses : Responses) :
    (growing around.registry).Runs (fun _ => True) (around.resolveReturns errand responses)
      fun returns => AllHeld (returns.types.flatMap fun (_, type) => type.model.toList) := by
  unfold resolveReturns
  refine (mapM_steady (fun pair : Status × ReturnType => pair.2.model.toList) _
    fun item => ?_).bind fun types => ?_
  · obtain ⟨⟨key, node⟩, index⟩ := item
    exact resolveReturn_steady _ key node
  · refine Regime.Runs.pure fun arena h r hr => ?_
    obtain ⟨pair, hp, hm⟩ := List.mem_flatMap.mp hr
    exact h r (List.mem_flatMap.mpr ⟨pair, Entries.mem_of_mem_foldl_set hp, hm⟩)

theorem resolveRoute_steady :
    (growing around.registry).Runs (fun _ => True) (around.resolveRoute endpoint)
      fun route => AllHeld route.models := by
  unfold resolveRoute
  have hkept : ∀ {parts : List Resolved} {before after : Arena},
      (growing around.registry).leads before after → AllHeld parts before → AllHeld parts after :=
    fun hl => AllHeld.mono hl.1
  have hreturns : ∀ (errand : Errand) (parts : List Resolved) (route : Returns → Route),
      (∀ returns, (route returns).models =
        parts ++ returns.types.flatMap fun (_, type) => type.model.toList) →
      (growing around.registry).Runs (AllHeld parts)
        (do
          let returns ← around.resolveReturns errand endpoint.operation.responses
          pure (route returns))
        fun route => AllHeld route.models := by
    intro errand parts route hparts
    refine (((resolveReturns_steady _).frame hkept).weaken (fun _ h => ⟨trivial, h⟩)
      fun _ _ h => h).bind fun returns => Regime.Runs.pure fun arena h => ?_
    rw [hparts]
    exact h.2.append h.1
  refine resolveInputs_steady.bind fun input => ?_
  simp only
  cases endpoint.operation.requestBody with
  | some node =>
    refine (((resolveBody_steady node).frame hkept).weaken (fun _ h => ⟨trivial, h⟩)
      fun _ _ h => h.2.append h.1).bind fun body => hreturns _ _ _ fun returns => rfl
  | none =>
    refine (hreturns _ (input.map Input.model ++ []) _ fun returns => rfl).weaken
      (fun arena h => ?_) fun _ _ h => h
    exact h.append (AllHeld.nil arena)

end Surroundings

end ApiAtlas
