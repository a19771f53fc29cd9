import ApiAtlas.Proofs.ResolutionDepth

namespace ApiAtlas

/-- A call for another node. -/
inductive Call
  | resolve (trail : Trail) (node : SchemaNode) (pos : Position)
  | build (trail : Trail) (schema : Schema) (pos : Position)
  | merge (trail : Trail) (schema : Schema) (pointer : String) (pos : Position) (merged : Merged)

/-- What a call comes to. -/
abbrev Call.Answer : Call → Type
  | .resolve .. => Resolved
  | .build .. => Model
  | .merge .. => Merged

/-- The work that is done for a call. -/
def Calls.answer (calls : Calls) : (call : Call) → Resolving call.Answer
  | .resolve trail node pos => calls.resolve trail node pos
  | .build trail schema pos => calls.build trail schema pos
  | .merge trail schema pointer pos merged => calls.merge trail schema pointer pos merged

/-- A call from an arena, with what it comes to and the arena that it leaves. -/
structure Visit where
  call : Call
  arena : Arena
  result : Except ResolveError call.Answer × Arena

/-- The calls do for a visit what it says. -/
def Calls.Meets (calls : Calls) (visit : Visit) : Prop :=
  (calls.answer visit.call).outcome visit.arena = visit.result

namespace Registry

/-- The visit is what its call comes to, by way of finitely many calls that return themselves, nested
less than `depth` deep. -/
inductive Returns (registry : Registry) : Nat → Visit → Prop
  | intro {depth : Nat} {visit : Visit} (nested : List Visit)
      (returns : ∀ other ∈ nested, Returns registry depth other)
      (comes : ∀ calls : Calls, (∀ other ∈ nested, calls.Meets other) →
        (registry.step calls).Meets visit) : Returns registry (depth + 1) visit

variable {registry : Registry} {depth : Nat} {visit : Visit}

/-- Calls that may be nested deep enough do what the visit says, whatever is at the floor. -/
theorem Returns.meets (h : registry.Returns depth visit) (floor : Calls) :
    ∀ {deeper : Nat}, depth ≤ deeper → (registry.callsWithin floor deeper).Meets visit := by
  induction h with
  | intro nested _ comes ih =>
    intro deeper hd
    cases deeper with
    | zero => omega
    | succ deeper =>
      have hle := Nat.le_of_succ_le_succ hd
      rw [callsWithin_succ]
      exact comes _ fun other ho => ih other ho hle

/-- A call comes to one result only. -/
theorem Returns.unique {call : Call} {arena : Arena} {depth depth' : Nat}
    {result result' : Except ResolveError call.Answer × Arena}
    (h : registry.Returns depth ⟨call, arena, result⟩)
    (h' : registry.Returns depth' ⟨call, arena, result'⟩) : result = result' := by
  have hm := h.meets noCalls (Nat.le_max_left depth depth')
  have hm' := h'.meets noCalls (Nat.le_max_right depth depth')
  exact hm.symm.trans hm'

variable {α β : Type} {arena : Arena} {p stronger : Arena → Prop} {w : Calls → Resolving α}
  {next : Calls → α → Resolving β}

/-- Work comes to a result from an arena by way of finitely many calls that return, nested at most
`depth` deep. -/
def Comes (registry : Registry) (depth : Nat) (work : Calls → Resolving α) (arena : Arena)
    (result : Except ResolveError α × Arena) : Prop :=
  ∃ nested : List Visit, (∀ visit ∈ nested, registry.Returns depth visit) ∧
    ∀ calls : Calls, (∀ visit ∈ nested, calls.Meets visit) → (work calls).outcome arena = result

/-- Work comes to some result from each arena with `p`, and forgets no component on the way. -/
def Ends (registry : Registry) (depth : Nat) (p : Arena → Prop) (work : Calls → Resolving α) :
    Prop :=
  ∀ arena, p arena → ∃ result, registry.Comes depth work arena result ∧ arena.Recalls result.2

theorem Ends.weaken (h : registry.Ends depth p w) (hp : ∀ arena, stronger arena → p arena) :
    registry.Ends depth stronger w :=
  fun arena hs => h arena (hp arena hs)

/-- Work that makes no calls. -/
theorem Ends.of_work (work : Resolving α)
    (hw : ∀ arena : Arena, arena.Recalls (Resolving.outcome work arena).2) :
    registry.Ends depth p fun _ => work :=
  fun arena _ => ⟨Resolving.outcome work arena, ⟨[], fun _ hv => by simp at hv, fun _ _ => rfl⟩,
    hw arena⟩

theorem Ends.pure {a : α} : registry.Ends depth p fun _ => pure a :=
  Ends.of_work _ fun arena => Arena.Recalls.refl arena

theorem Ends.throw {error : ResolveError} :
    registry.Ends depth p fun _ => (throw error : Resolving α) :=
  Ends.of_work _ fun arena => Arena.Recalls.refl arena

theorem Ends.lift {result : Except ResolveError α} :
    registry.Ends depth p fun _ => (liftM result : Resolving α) := by
  refine Ends.of_work _ fun arena => ?_
  rw [Resolving.outcome_lift]
  exact Arena.Recalls.refl arena

theorem Ends.reserve {scope : List String} :
    registry.Ends depth p fun _ => Resolving.reserve scope :=
  Ends.of_work _ fun arena => Arena.Recalls.refl arena

theorem Ends.fill {id : ModelId} {model : Model} :
    registry.Ends depth p fun _ => Resolving.fill id model :=
  Ends.of_work _ fun arena => Arena.Recalls.refl arena

theorem Ends.remember {name : String} {id : ModelId} :
    registry.Ends depth p fun _ => (modify fun arena => arena.remember name id : Resolving Unit) :=
  Ends.of_work _ fun arena => arena.recalls_remember name id

/-- What follows makes its calls after those of the work before it. -/
theorem Ends.bind (hk : ∀ {before after}, Arena.Recalls before after → p before → p after)
    (hw : registry.Ends depth p w) (hn : ∀ a, registry.Ends depth p fun calls => next calls a) :
    registry.Ends depth p fun calls => w calls >>= next calls := by
  intro arena hp
  obtain ⟨⟨result, after⟩, ⟨nested, hreturns, hcomes⟩, hrecalls⟩ := hw arena hp
  cases result with
  | error error =>
    refine ⟨(.error error, after), ⟨nested, hreturns, fun calls hm => ?_⟩, hrecalls⟩
    rw [Resolving.outcome_bind, hcomes calls hm]
  | ok a =>
    obtain ⟨last, ⟨later, hreturns', hcomes'⟩, hrecalls'⟩ := hn a after (hk hrecalls hp)
    refine ⟨last, ⟨nested ++ later, fun visit hv => ?_, fun calls hm => ?_⟩,
      hrecalls.trans hrecalls'⟩
    · exact (List.mem_append.mp hv).elim (hreturns visit) (hreturns' visit)
    · have hfirst := hcomes calls fun visit hv => hm visit (List.mem_append_left _ hv)
      have hlater := hcomes' calls fun visit hv => hm visit (List.mem_append_right _ hv)
      rw [Resolving.outcome_bind, hfirst]
      exact hlater

/-- What follows may depend on the arena. -/
theorem Ends.get_bind {rest : Calls → Arena → Resolving β}
    (hr : ∀ arena, p arena → registry.Ends depth (fun other => other = arena)
      fun calls => rest calls arena) :
    registry.Ends depth p fun calls => get >>= rest calls :=
  fun arena hp => hr arena hp arena rfl

theorem Ends.reserve_bind {scope : List String} {rest : Calls → ModelId → Resolving β}
    (hr : ∀ arena, p arena → registry.Ends depth (fun other => other = (arena.reserve scope).2)
      fun calls => rest calls arena.slots.length) :
    registry.Ends depth p fun calls => Resolving.reserve scope >>= rest calls :=
  fun arena hp => hr arena hp _ rfl

theorem Ends.modify_bind {change : Arena → Arena} {rest : Calls → Unit → Resolving β}
    (hc : ∀ arena, Arena.Recalls arena (change arena))
    (hr : ∀ arena, p arena → registry.Ends depth (fun other => other = change arena)
      fun calls => rest calls ()) :
    registry.Ends depth p fun calls => modify change >>= rest calls := by
  intro arena hp
  obtain ⟨result, hcomes, hrecalls⟩ := hr arena hp _ rfl
  exact ⟨result, hcomes, (hc arena).trans hrecalls⟩

theorem Ends.ite {c : Prop} [Decidable c] {other : Calls → Resolving α}
    (hw : c → registry.Ends depth p w) (ho : ¬ c → registry.Ends depth p other) :
    registry.Ends depth p fun calls => if c then w calls else other calls := by
  by_cases hc : c
  · simp only [if_pos hc]
    exact hw hc
  · simp only [if_neg hc]
    exact ho hc

theorem Ends.lift_bind {result : Except ResolveError α}
    (hn : ∀ a, result = .ok a → registry.Ends depth p fun calls => next calls a) :
    registry.Ends depth p fun calls => liftM result >>= next calls := by
  cases hr : result with
  | ok a => exact hn a hr
  | error error => exact Ends.throw

theorem Ends.mapM {γ : Type} {each : Calls → γ → Resolving α} (items : List γ)
    (hk : ∀ {before after}, Arena.Recalls before after → p before → p after)
    (he : ∀ item ∈ items, registry.Ends depth p fun calls => each calls item) :
    registry.Ends depth p fun calls => items.mapM (each calls) := by
  induction items with
  | nil => exact Ends.pure
  | cons item rest ih =>
    have hrest := ih fun other ho => he other (List.mem_cons_of_mem _ ho)
    simp only [List.mapM_cons]
    exact (he item List.mem_cons_self).bind hk fun a => hrest.bind hk fun as => Ends.pure

theorem Ends.foldlM {γ : Type} {each : Calls → α → γ → Resolving α} (items : List γ)
    (hk : ∀ {before after}, Arena.Recalls before after → p before → p after)
    (he : ∀ item ∈ items, ∀ a, registry.Ends depth p fun calls => each calls a item) (a : α) :
    registry.Ends depth p fun calls => items.foldlM (each calls) a := by
  induction items generalizing a with
  | nil => exact Ends.pure
  | cons item rest ih =>
    have hrest := ih fun other ho => he other (List.mem_cons_of_mem _ ho)
    simp only [List.foldlM_cons]
    exact (he item List.mem_cons_self a).bind hk hrest

end Registry

end ApiAtlas
