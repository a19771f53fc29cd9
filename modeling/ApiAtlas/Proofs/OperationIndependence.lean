import ApiAtlas.Proofs.UnitAccounting

namespace ApiAtlas

variable {move next : ModelId → ModelId}

theorem Resolved.renumber_congr {resolved : Resolved} (h : move resolved.id = next resolved.id) :
    resolved.renumber move = resolved.renumber next := by
  cases resolved with
  | ref name id => exact congrArg (Resolved.ref name) h
  | value id => exact congrArg Resolved.value h

theorem Resolved.map_renumber_congr {resolved : Option Resolved}
    (h : ∀ r ∈ resolved.toList, move r.id = next r.id) :
    resolved.map (Resolved.renumber move) = resolved.map (Resolved.renumber next) := by
  cases resolved with
  | none => rfl
  | some r => exact congrArg some (renumber_congr (h r (List.mem_singleton.mpr rfl)))

/-- Only the places that a model refers to matter where it is renumbered. -/
theorem Model.renumber_congr {model : Model}
    (h : ∀ child ∈ model.children, move child.id = next child.id) :
    model.renumber move = model.renumber next := by
  cases model with
  | collection c =>
    have hc := Resolved.renumber_congr (h c.element (List.mem_singleton.mpr rfl))
    cases c <;> exact congrArg (Model.collection ∘ _) hc
  | object o =>
    refine congrArg (fun properties => Model.object { o with properties }) ?_
    refine List.map_congr_left fun property hp => ?_
    have hc := Resolved.renumber_congr (h property.model (List.mem_map_of_mem hp))
    exact congrArg (fun model => { property with model }) hc
  | union u =>
    refine congrArg (fun cases => Model.union { u with cases }) ?_
    refine List.map_congr_left fun case hm => ?_
    have hc := Resolved.renumber_congr (h case.model (List.mem_map_of_mem hm))
    exact congrArg (fun model => { case with model }) hc
  | primitive _ => rfl
  | binary => rfl
  | freeForm => rfl
  | enum _ => rfl

theorem Body.renumber_congr {body : Body} (h : ∀ r ∈ body.models, move r.id = next r.id) :
    body.renumber move = body.renumber next := by
  obtain ⟨payload, extensions⟩ := body
  refine congrArg (fun payload => Body.mk payload extensions) ?_
  cases payload with
  | json model =>
    exact congrArg Payload.json (Resolved.renumber_congr (h model (List.mem_singleton.mpr rfl)))
  | xml model =>
    exact congrArg Payload.xml (Resolved.renumber_congr (h model (List.mem_singleton.mpr rfl)))
  | octetStream => rfl
  | multipart model fields =>
    refine congrArg₂ Payload.multipart
      (Resolved.map_renumber_congr fun r hr => h r (List.mem_append_left _ hr)) ?_
    refine List.map_congr_left fun field hf => ?_
    have hc := Resolved.renumber_congr
      (h field.model (List.mem_append_right _ (List.mem_map_of_mem hf)))
    exact congrArg (fun model => { field with model }) hc
  | other model => exact congrArg Payload.other (Resolved.map_renumber_congr h)

/-- Only the places that a route refers to matter where it is renumbered. -/
theorem Route.renumber_congr {route : Route} (h : ∀ r ∈ route.models, move r.id = next r.id) :
    route.renumber move = route.renumber next := by
  have hinput : route.input.map (Input.renumber move) = route.input.map (Input.renumber next) := by
    refine List.map_congr_left fun input hi => ?_
    have hc := Resolved.renumber_congr (h input.model
      (List.mem_append_left _ (List.mem_append_left _ (List.mem_map_of_mem hi))))
    exact congrArg (fun model => { input with model }) hc
  have hbody : route.body.renumber move = route.body.renumber next := by
    refine congrArg (fun types => { route.body with types }) ?_
    refine List.map_congr_left fun (name, body) hb => ?_
    refine congrArg (Prod.mk name) (Body.renumber_congr fun r hr => ?_)
    exact h r (List.mem_append_left _ (List.mem_append_right _
      (List.mem_flatMap.mpr ⟨(name, body), hb, hr⟩)))
  have hreturns : route.returns.renumber move = route.returns.renumber next := by
    refine congrArg (fun types => { route.returns with types }) ?_
    refine List.map_congr_left fun (status, type) ht => ?_
    refine congrArg (fun model => (status, { type with model })) ?_
    exact Resolved.map_renumber_congr fun r hr => h r (List.mem_append_right _
      (List.mem_flatMap.mpr ⟨(status, type), ht, hr⟩))
  unfold Route.renumber
  rw [hinput, hbody, hreturns]

namespace Arena

variable {registry : Registry} {left right after : Arena} {place : Nat}

/-- Every component is noted or was left out. -/
def Complete (registry : Registry) (arena : Arena) : Prop :=
  ∀ name, Entries.has registry.schemas name = true →
    Entries.has arena.memo name = true ∨ name ∈ arena.failed

/-- The models of one arena stand in another, those of components at their places and the others at
new ones. -/
structure Embeds (move : ModelId → ModelId) (left right : Arena) : Prop where
  memo : right.memo = left.memo
  failed : right.failed = left.failed
  placed : ∀ pair ∈ left.memo, move pair.2 = pair.2
  slots : ∀ place < left.slots.length,
    right.slots[move place]? = left.slots[place]?.map (Option.map (Model.renumber move))
  scopes : ∀ place < left.slots.length, right.scopes[move place]? = left.scopes[place]?

theorem Embeds.refl (arena : Arena) : arena.Embeds id arena :=
  ⟨rfl, rfl, fun _ _ => rfl, fun _ _ => by simp, fun _ _ => rfl⟩

theorem Embeds.lt (h : left.Embeds move right) (hi : place < left.slots.length) :
    move place < right.slots.length := by
  have hs := h.slots place hi
  by_contra hn
  rw [List.getElem?_eq_none (Nat.le_of_not_lt hn), List.getElem?_eq_getElem hi] at hs
  cases hs

theorem Embeds.model? (h : left.Embeds move right) (hi : place < left.slots.length) :
    right.model? (move place) = (left.model? place).map (Model.renumber move) := by
  unfold Arena.model?
  rw [h.slots place hi, List.getElem?_eq_getElem hi]
  cases left.slots[place] <;> rfl

/-- More models in the larger arena do not matter, as long as no component is among them. -/
theorem Embeds.of_grows (h : left.Embeds move right)
    (hr : right.scopes.length = right.slots.length) (hg : right.Grows after)
    (hm : after.memo = right.memo) : left.Embeds move after := by
  refine ⟨hm.trans h.memo, hg.failed.trans h.failed, h.placed, fun place hi => ?_, fun place hi => ?_⟩
  · rw [hg.slots_getElem? (h.lt hi), h.slots place hi]
  · obtain ⟨added, he⟩ := hg.scopes
    rw [← he, List.getElem?_append_left (by rw [hr]; exact h.lt hi), h.scopes place hi]

/-- What a place is moved to matters for the places that there are. -/
theorem Embeds.congr (h : left.Embeds move right) (hs : left.Sound registry)
    (hmove : ∀ place < left.slots.length, next place = move place) : left.Embeds next right := by
  refine ⟨h.memo, h.failed, fun pair hp => ?_, fun place hi => ?_, fun place hi => ?_⟩
  · rw [hmove _ (hs.placed pair hp), h.placed pair hp]
  · rw [hmove place hi, h.slots place hi, List.getElem?_eq_getElem hi]
    simp only [Option.map_some, Option.some.injEq]
    cases hm : left.slots[place] with
    | none => rfl
    | some model =>
      have hmodel : left.model? place = some model := by
        simp [Arena.model?, List.getElem?_eq_getElem hi, hm]
      refine congrArg some (Model.renumber_congr fun child hc => ?_)
      exact (hmove _ (hs.holds_lt (hs.linked place model hmodel child hc))).symm
  · rw [hmove place hi, h.scopes place hi]

/-- The smaller arena is about to add what the larger one adds. -/
structure Beside (registry : Registry) (memo : Entries ModelId) (move : ModelId → ModelId) (n : Nat)
    (left right : Arena) : Prop where
  embeds : left.Embeds move right
  noted : left.memo = memo
  complete : left.Complete registry
  start : n ≤ left.slots.length
  level : right.slots.length = move left.slots.length
  alignedLeft : left.scopes.length = left.slots.length
  alignedRight : right.scopes.length = right.slots.length

end Arena

/-- From the place `n` on places keep their distances. -/
structure Shifts (n : Nat) (move : ModelId → ModelId) : Prop where
  strict : StrictMono move
  step : ∀ id, n ≤ id → move (id + 1) = move id + 1

namespace Arena.Beside

variable {registry : Registry} {left right : Arena} {n : Nat} {memo : Entries ModelId}

theorem reserve (h : left.Beside registry memo move n right) (hmove : Shifts n move)
    (scope : List String) :
    (left.reserve scope).2.Beside registry memo move n (right.reserve scope).2 := by
  have hlen : (left.reserve scope).2.slots.length = left.slots.length + 1 := by simp [Arena.reserve]
  refine ⟨⟨h.embeds.memo, h.embeds.failed, h.embeds.placed, fun id hi => ?_, fun id hi => ?_⟩,
    h.noted, h.complete, ?_, ?_, ?_, ?_⟩
  · rcases Nat.lt_or_eq_of_le (Nat.le_of_lt_succ (hlen ▸ hi)) with hlt | rfl
    · simp only [Arena.reserve, List.getElem?_append_left hlt,
        List.getElem?_append_left (h.embeds.lt hlt)]
      exact h.embeds.slots id hlt
    · simp [Arena.reserve, ← h.level]
  · rcases Nat.lt_or_eq_of_le (Nat.le_of_lt_succ (hlen ▸ hi)) with hlt | rfl
    · simp only [Arena.reserve]
      rw [List.getElem?_append_left (by rw [h.alignedRight]; exact h.embeds.lt hlt),
        List.getElem?_append_left (by rw [h.alignedLeft]; exact hlt)]
      exact h.embeds.scopes id hlt
    · rw [← h.level]
      simp [Arena.reserve, ← h.alignedLeft, ← h.alignedRight]
  · rw [hlen]
    exact Nat.le_succ_of_le h.start
  · rw [hlen, hmove.step _ h.start, ← h.level]
    simp [Arena.reserve]
  · simp [Arena.reserve, h.alignedLeft]
  · simp [Arena.reserve, h.alignedRight]

/-- Every component that could be noted has its place by now. -/
theorem remember (h : left.Beside registry memo move n right) {name : String} {id : Nat}
    (hname : (Entries.get? registry.schemas name).isSome) (hf : name ∉ left.failed)
    (hm : Entries.get? left.memo name = none ∨ Entries.get? left.memo name = some id) :
    (left.remember name id).Beside registry memo move n (right.remember name (move id)) := by
  have hhas : Entries.has left.memo name = true :=
    (h.complete name (Entries.has_iff.mpr (Option.isSome_iff_exists.mp hname))).resolve_right hf
  obtain ⟨place, hplace⟩ := Entries.has_iff.mp hhas
  have hid : Entries.get? left.memo name = some id :=
    hm.resolve_left fun hnone => by simp [hnone] at hplace
  have hmoved : move id = id := h.embeds.placed (name, id) (Entries.mem_of_get? hid)
  rw [remember_of_get? hid, remember_of_get? (by rw [h.embeds.memo, hmoved, hid])]
  exact h

theorem fill (h : left.Beside registry memo move n right) (hmove : Shifts n move) {id : Nat}
    (hi : id < left.slots.length) (model : Model) :
    (left.fill id model).Beside registry memo move n
      (right.fill (move id) (model.renumber move)) := by
  refine ⟨⟨h.embeds.memo, h.embeds.failed, h.embeds.placed, fun place hp => ?_, fun place hp => ?_⟩,
    h.noted, h.complete, ?_, ?_, ?_, ?_⟩
  · simp only [Arena.fill, List.length_set] at hp ⊢
    rw [List.getElem?_set, List.getElem?_set]
    by_cases he : id = place
    · subst he
      rw [if_pos rfl, if_pos rfl, if_pos hi, if_pos (h.embeds.lt hi)]
      rfl
    · rw [if_neg he, if_neg (hmove.strict.injective.ne he)]
      exact h.embeds.slots place hp
  · simp only [Arena.fill, List.length_set] at hp ⊢
    exact h.embeds.scopes place hp
  · simpa [Arena.fill] using h.start
  · simpa [Arena.fill] using h.level
  · simpa [Arena.fill] using h.alignedLeft
  · simpa [Arena.fill] using h.alignedRight

end Arena.Beside

/-- Resolving in an arena, and in one that has further models of operations. -/
def beside (registry : Registry) (memo : Entries ModelId) {n : Nat} (hmove : Shifts n move) :
    Pairing where
  left := registry
  right := registry
  move := move
  rel := Arena.Beside registry memo move n
  lost _ := False
  lenient := False
  extensions := (confinement registry).extensions
  lost_mono h _ := h
  lost_lenient h := h
  memo := by
    intro s t h name
    rw [h.embeds.memo]
    cases hm : Entries.get? s.memo name with
    | none => rfl
    | some id => exact congrArg some (h.embeds.placed (name, id) (Entries.mem_of_get? hm)).symm
  failed := by
    intro s t h name
    exact .inl (by rw [h.embeds.failed])
  schemas name := .inl rfl
  written := by
    intro s t _ _ path name _ _ location
    exact .inr rfl
  model := by
    intro s t h id hi
    exact h.embeds.model? hi
  place h := h.level
  reserve h scope := h.reserve hmove scope
  remember := by
    intro s t h name id hname hf hm _
    exact h.remember hname hf hm
  fill := by
    intro s t h id hi _ model
    exact h.fill hmove hi model

theorem beside_follows {registry : Registry} {memo : Entries ModelId} {n : Nat}
    (hmove : Shifts n move) (node : SchemaNode) (pos : Position) :
    (beside registry memo hmove).Follows (fun _ => True) (registry.resolve node pos)
      (registry.resolve node pos) (Resolved.renumber move) := by
  have hfloor : Registry.noCalls.Follow (beside registry memo hmove) 0 Registry.noCalls :=
    ⟨Registry.noCalls_steady, fun _ _ _ => Pairing.Follows.throw,
      fun _ _ _ => Pairing.Follows.throw, fun _ _ _ _ _ => Pairing.Follows.throw⟩
  have hc := Registry.follow_within hfloor (registry.budget node.size) (registry.budget node.size)
    (registry.budget node.size) (Nat.le_refl _) (Nat.le_refl _)
  exact (hc.resolve {} node pos).weaken fun arena _ => Registry.depth_le_budget node.size

theorem alike_beside (around : Surroundings) (memo : Entries ModelId) {n : Nat}
    (hmove : Shifts n move) :
    Surroundings.Alike (beside around.registry memo hmove) around around where
  left := rfl
  right := rfl
  parameters := rfl
  requestBodies := rfl
  responses := rfl
  naming := rfl
  resolve := beside_follows hmove

/-- Places below `n` are moved as before, and those from `n` on are added at the end of the larger
arena, which has `size` places. -/
def extend (move : ModelId → ModelId) (n size : Nat) (place : Nat) : ModelId :=
  if place < n then move place else place - n + size

section
variable {n size place : Nat}

theorem extend_of_lt (h : place < n) : extend move n size place = move place := if_pos h

theorem extend_of_le (h : n ≤ place) : extend move n size place = place - n + size :=
  if_neg (Nat.not_lt.mpr h)

theorem shifts_extend (hm : StrictMono move) (hs : ∀ place < n, move place < size) :
    Shifts n (extend move n size) := by
  refine ⟨fun (place other : Nat) hlt => ?_, fun (place : Nat) hn => ?_⟩
  · by_cases ho : other < n
    · rw [extend_of_lt ho, extend_of_lt (Nat.lt_trans hlt ho)]
      exact hm hlt
    · rw [extend_of_le (Nat.not_lt.mp ho)]
      by_cases hp : place < n
      · rw [extend_of_lt hp]
        exact Nat.lt_add_left _ (hs place hp)
      · rw [extend_of_le (Nat.not_lt.mp hp)]
        exact Nat.add_lt_add_right (Nat.sub_lt_sub_right (Nat.not_lt.mp hp) hlt) size
  · rw [extend_of_le hn, extend_of_le (Nat.le_succ_of_le hn), Nat.succ_sub hn]
    exact Nat.succ_add _ _

end

/-- Two arenas between the same two operations: the one of a document without some operations and
the one of the whole document. -/
structure Thinned (registry : Registry) (memo : Entries ModelId) (move : ModelId → ModelId)
    (left right : Arena) : Prop where
  strict : StrictMono move
  embeds : left.Embeds move right
  noted : left.memo = memo
  complete : left.Complete registry
  restedLeft : left.Rested registry
  restedRight : right.Rested registry

namespace Thinned

variable {registry : Registry} {memo : Entries ModelId} {left right after after' : Arena}

/-- The next models of both arenas go to their ends. -/
theorem beside (h : Thinned registry memo move left right) :
    left.Beside registry memo (extend move left.slots.length right.slots.length) left.slots.length
      right where
  embeds := h.embeds.congr h.restedLeft.sound fun _ hp => extend_of_lt hp
  noted := h.noted
  complete := h.complete
  start := Nat.le_refl _
  level := by rw [extend_of_le (Nat.le_refl _), Nat.sub_self, Nat.zero_add]
  alignedLeft := h.restedLeft.sound.aligned
  alignedRight := h.restedRight.sound.aligned

theorem shifts (h : Thinned registry memo move left right) :
    Shifts left.slots.length (extend move left.slots.length right.slots.length) :=
  shifts_extend h.strict fun _ hp => h.embeds.lt hp

/-- The larger arena is resolved in beside itself. -/
theorem self (h : Thinned registry memo move left right) : Thinned registry memo id right right where
  strict := strictMono_id
  embeds := Arena.Embeds.refl right
  noted := h.embeds.memo.trans h.noted
  complete name hn := by
    rw [h.embeds.memo, h.embeds.failed]
    exact h.complete name hn
  restedLeft := h.restedRight
  restedRight := h.restedRight

end Thinned

namespace Surroundings

variable {around : Surroundings} {memo : Entries ModelId} {left right after : Arena}
  {endpoint : Endpoint} {route : Route} {error : ResolveError}

/-- An operation comes to the same route in both arenas. -/
theorem attempt_kept (h : Thinned around.registry memo move left right)
    (he : Resolving.attempt (around.resolveRoute endpoint) left = (.ok route, after)) :
    ∃ after', Resolving.attempt (around.resolveRoute endpoint) right =
        (.ok (route.renumber (extend move left.slots.length right.slots.length)), after') ∧
      Thinned around.registry memo (extend move left.slots.length right.slots.length) after after' ∧
      left.Grows after ∧ right.Grows after' ∧ AllHeld route.models after := by
  have hfollows : Pairing.Follows _ _ (around.resolveRoute endpoint) _ _ :=
    resolveRoute_follows (alike_beside around memo h.shifts)
  obtain ⟨after', hother, hrel⟩ := hfollows.attempt h.restedLeft.sound h.beside trivial he id
  have hw : (growing around.registry).Runs (fun _ => True) (around.resolveRoute endpoint) _ :=
    resolveRoute_steady
  rcases attempt_steady hw h.restedLeft.sound with ⟨_, _, he', hs, hg, hf, hheld⟩ | ⟨_, he'⟩
  · cases he.symm.trans he'
    rcases attempt_steady hw h.restedRight.sound with ⟨_, _, ho', hs', hg', hf', _⟩ | ⟨_, ho'⟩
    · cases hother.symm.trans ho'
      exact ⟨_, hother, ⟨h.shifts.strict, hrel.embeds, hrel.noted, hrel.complete,
        h.restedLeft.of_grows hs hg hf, h.restedRight.of_grows hs' hg' hf'⟩, hg, hg', hheld⟩
    · cases hother.symm.trans ho'
  · cases he.symm.trans he'

/-- An operation fails in the same way in both arenas, and leaves both as they were. -/
theorem attempt_failed (h : Thinned around.registry memo move left right)
    (he : Resolving.attempt (around.resolveRoute endpoint) left = (.error error, after)) :
    after = left ∧ Resolving.attempt (around.resolveRoute endpoint) right = (.error error, right) := by
  have hfollows : Pairing.Follows _ _ (around.resolveRoute endpoint) _ _ :=
    resolveRoute_follows (alike_beside around memo h.shifts)
  have hm := hfollows.here left right h.restedLeft.sound h.beside trivial
  obtain ⟨last, ho⟩ := Resolving.outcome_of_attempt_error he
  unfold Pairing.Matches at hm
  rw [ho] at hm
  obtain ⟨last', hother⟩ := hm.resolve_left id
  have hw : (growing around.registry).Runs (fun _ => True) (around.resolveRoute endpoint) _ :=
    resolveRoute_steady
  rcases attempt_steady hw h.restedLeft.sound with ⟨_, _, he', _⟩ | ⟨_, he'⟩
  · cases he.symm.trans he'
  · cases he.symm.trans he'
    rcases attempt_steady hw h.restedRight.sound with ⟨_, _, ho', _⟩ | ⟨_, ho'⟩
    · cases hother.symm.trans (Resolving.attempt_eq_ok.mp ho')
    · obtain ⟨_, ho''⟩ := Resolving.outcome_of_attempt_error ho'
      cases hother.symm.trans ho''
      exact ⟨rfl, ho'⟩

/-- What one arena alone makes of an operation does not matter to the other one. -/
theorem attempt_skipped (endpoint : Endpoint) (h : Thinned around.registry memo move left right) :
    Thinned around.registry memo move left
      (Resolving.attempt (around.resolveRoute endpoint) right).2 := by
  cases he : Resolving.attempt (around.resolveRoute endpoint) right with
  | mk result after =>
    cases result with
    | error error =>
      obtain ⟨rfl, _⟩ := attempt_failed h.self he
      exact h
    | ok route =>
      obtain ⟨_, _, hself, hgrows, _⟩ := attempt_kept h.self he
      have hmemo : after.memo = right.memo := hself.noted.trans h.self.noted.symm
      exact ⟨h.strict, h.embeds.of_grows h.restedRight.sound.aligned hgrows hmemo, h.noted,
        h.complete, h.restedLeft, hself.restedLeft⟩

/-- Without some operations the others come to what they come to beside them. -/
theorem resolveRoutes_thinned (gone : Source → Bool) (endpoints : List Endpoint) :
    ∀ {move : ModelId → ModelId} {left right : Arena},
      Thinned around.registry memo move left right →
      ∃ next, Thinned around.registry memo next
          (around.resolveRoutes (endpoints.filter fun endpoint => !gone endpoint.source) left).2
          (around.resolveRoutes endpoints right).2 ∧
        (∀ place < left.slots.length, next place = move place) ∧
        (around.resolveRoutes endpoints right).1.1.filter (fun route => !gone route.source) =
          (around.resolveRoutes (endpoints.filter fun endpoint => !gone endpoint.source)
            left).1.1.map (Route.renumber next) ∧
        (around.resolveRoutes endpoints right).1.2.filter (fun entry => !gone entry.source) =
          (around.resolveRoutes (endpoints.filter fun endpoint => !gone endpoint.source) left).1.2 := by
  induction endpoints with
  | nil => exact fun h => ⟨_, h, fun _ _ => rfl, rfl, rfl⟩
  | cons endpoint rest ih =>
    intro move left right h
    by_cases hgone : gone endpoint.source = true
    · rw [List.filter_cons_of_neg (by simpa using hgone)]
      obtain ⟨next, hnext, hkept, hroutes, hreport⟩ := ih (attempt_skipped endpoint h)
      refine ⟨next, ?_⟩
      rw [resolveRoutes]
      cases he : Resolving.attempt (around.resolveRoute endpoint) right with
      | mk result after =>
        rw [he] at hnext hroutes hreport
        cases result with
        | ok route =>
          refine ⟨hnext, hkept, ?_, hreport⟩
          rw [List.filter_cons_of_neg (by simpa [resolveRoute_source he] using hgone)]
          exact hroutes
        | error error =>
          refine ⟨hnext, hkept, hroutes, ?_⟩
          rw [List.filter_cons_of_neg (by simpa using hgone)]
          exact hreport
    · rw [List.filter_cons_of_pos (by simpa using hgone), resolveRoutes, resolveRoutes]
      cases he : Resolving.attempt (around.resolveRoute endpoint) left with
      | mk result after =>
        cases result with
        | error error =>
          obtain ⟨rfl, hother⟩ := attempt_failed h he
          rw [hother]
          obtain ⟨next, hnext, hkept, hroutes, hreport⟩ := ih h
          refine ⟨next, hnext, hkept, hroutes, ?_⟩
          rw [List.filter_cons_of_pos (by simpa using hgone), hreport]
        | ok route =>
          obtain ⟨after', hother, hafter, hgrows, _, hheld⟩ := attempt_kept h he
          rw [hother]
          obtain ⟨next, hnext, hkept, hroutes, hreport⟩ := ih hafter
          refine ⟨next, hnext, fun place hp => ?_, ?_, hreport⟩
          · rw [hkept place (Nat.lt_of_lt_of_le hp hgrows.slots.length_le), extend_of_lt hp]
          · have hsource := resolveRoute_source hother
            rw [List.filter_cons_of_pos (by simpa [hsource] using hgone), hroutes, List.map_cons]
            -- The places of the route were all there before those of later operations.
            refine congrArg (· :: _) (Route.renumber_congr fun r hr => ?_)
            exact (hkept _ (hafter.restedLeft.sound.holds_lt (hheld r hr))).symm

end Surroundings

namespace Surroundings

theorem resolveRoutes_without {around : Surroundings} (units : List Source)
    (endpoints : List Endpoint) : ∀ arena : Arena,
    around.resolveRoutes (endpoints.map (Endpoint.without units)) arena =
      around.resolveRoutes endpoints arena := by
  induction endpoints with
  | nil => exact fun _ => rfl
  | cons endpoint rest ih =>
    intro arena
    rw [List.map_cons, resolveRoutes, resolveRoutes, resolveRoute_without]
    simp only [ih]
    rfl

end Surroundings

namespace Document

variable {settings : Settings} {document : Document}

/-- The document without some of its operations. -/
def withoutOperations (gone : List (Method × String)) (document : Document) : Document :=
  document.without (gone.map fun (method, path) => .route method path)

/-- The operation that a route or report is of is among some operations. -/
def isGone (gone : List (Method × String)) (unit : Source) : Bool :=
  (gone.map fun (method, path) => Source.route method path).contains unit

theorem isGone_component (gone : List (Method × String)) (name : String) :
    isGone gone (.component name) = false := by
  unfold isGone
  rw [← Bool.not_eq_true, List.contains_iff_mem]
  intro hm
  obtain ⟨_, _, he⟩ := List.mem_map.mp hm
  cases he

theorem surroundings_withoutOperations (settings : Settings) (document : Document)
    (gone : List (Method × String)) :
    (document.withoutOperations gone).surroundings settings = document.surroundings settings := by
  have hschemas : ∀ schemas : Entries SchemaNode,
      (schemas.filter fun pair => !isGone gone (.component pair.1)) = schemas := by
    intro schemas
    refine List.filter_eq_self.mpr fun pair _ => ?_
    show (!isGone gone (.component pair.1)) = true
    rw [isGone_component]
    rfl
  have hcomponents : (document.withoutOperations gone).components = document.components := by
    unfold withoutOperations without
    cases document.components with
    | none => rfl
    | some components =>
      exact congrArg (fun schemas => some { components with schemas }) (hschemas components.schemas)
  unfold surroundings schemas
  rw [hcomponents]

theorem componentArena_complete (settings : Settings) (document : Document) :
    (document.componentArena settings).Complete (document.surroundings settings).registry := by
  intro name hname
  by_cases hm : Entries.has (document.componentArena settings).memo name = true
  · exact .inl hm
  · refine .inr (failed_of_reported ?_).1
    rw [reported_eq, reported_components]
    refine List.mem_append_left _ (List.mem_map_of_mem (List.mem_filter.mpr ⟨?_, ?_⟩))
    · exact Entries.has_iff_mem_keys.mp hname
    · simpa using hm

/-- Before the first operation both documents have the arena of the components. -/
theorem thinned_componentArena (settings : Settings) (document : Document) :
    Thinned (document.surroundings settings).registry (document.componentArena settings).memo id
      (document.componentArena settings) (document.componentArena settings) where
  strict := strictMono_id
  embeds := Arena.Embeds.refl _
  noted := rfl
  complete := componentArena_complete settings document
  restedLeft := componentArena_rested settings document
  restedRight := componentArena_rested settings document

/-- Operations note no component and leave those that are there as they are. -/
theorem finalArena_keeps (settings : Settings) (document : Document) :
    (document.finalArena settings).memo = (document.componentArena settings).memo ∧
      (document.finalArena settings).failed = (document.componentArena settings).failed ∧
      (document.componentArena settings).slots <+: (document.finalArena settings).slots ∧
      (document.componentArena settings).scopes <+: (document.finalArena settings).scopes := by
  have hgrows := (sweeps_routes settings document).grows
  obtain ⟨_, hlast, _⟩ := Surroundings.resolveRoutes_thinned (fun _ => true) document.endpoints
    (thinned_componentArena settings document)
  have hmemo : (document.finalArena settings).memo = (document.componentArena settings).memo :=
    hlast.embeds.memo.trans hlast.noted
  exact ⟨hmemo, hgrows.failed, hgrows.slots, hgrows.scopes⟩

theorem endpoints_withoutOperations (document : Document) (gone : List (Method × String)) :
    (document.withoutOperations gone).endpoints =
      (document.endpoints.filter fun endpoint => !isGone gone endpoint.source).map
        (Endpoint.without (gone.map fun (method, path) => .route method path)) :=
  endpoints_without _ _

theorem resolveRoutes_withoutOperations (settings : Settings) (document : Document)
    (gone : List (Method × String)) (arena : Arena) :
    ((document.withoutOperations gone).surroundings settings).resolveRoutes
        (document.withoutOperations gone).endpoints arena =
      (document.surroundings settings).resolveRoutes
        (document.endpoints.filter fun endpoint => !isGone gone endpoint.source) arena := by
  rw [surroundings_withoutOperations, endpoints_withoutOperations,
    Surroundings.resolveRoutes_without]

/-- Operations are resolved independently. Whatever operations are taken out of a document, its
components come to the same arena, which no operation changes; and each of the other operations has
the same entry in the report, or the same route up to the places of the models that were made for
operations, which move up in their order. -/
theorem operations_independent (settings : Settings) (document : Document)
    (gone : List (Method × String)) :
    let rest := document.withoutOperations gone
    let arena := document.componentArena settings
    let (routes, models, report) := document.resolve settings
    let (routes', models', report') := rest.resolve settings
    rest.componentArena settings = arena ∧
      ((document.finalArena settings).memo = arena.memo ∧
        (document.finalArena settings).failed = arena.failed ∧
        arena.slots <+: (document.finalArena settings).slots ∧
        arena.scopes <+: (document.finalArena settings).scopes) ∧
      models'.components = models.components ∧
      (∀ place < arena.slots.length, (models.get? place).isSome ∧
        models'.get? place = models.get? place ∧ models'.scope place = models.scope place) ∧
      ∃ move : ModelId → ModelId, StrictMono move ∧
        (∀ place < arena.slots.length, move place = place) ∧
        (∀ place model, models'.get? place = some model →
          models.get? (move place) = some (model.renumber move) ∧
            models.scope (move place) = models'.scope place) ∧
        (routes.filter fun route => !isGone gone route.source) =
          routes'.map (Route.renumber move) ∧
        (report.filter fun entry => !isGone gone entry.source) = report' := by
  intro rest arena
  have haround : rest.surroundings settings = document.surroundings settings :=
    surroundings_withoutOperations settings document gone
  have harena : rest.componentArena settings = arena := by
    unfold componentArena
    rw [haround]
    rfl
  have hthin : (rest.surroundings settings).resolveRoutes rest.endpoints
      (rest.componentArena settings) = (document.surroundings settings).resolveRoutes
        (document.endpoints.filter fun endpoint => !isGone gone endpoint.source) arena := by
    rw [harena, resolveRoutes_withoutOperations]
  obtain ⟨move, hlast, hfixed, hroutes, hreport⟩ := Surroundings.resolveRoutes_thinned
    (isGone gone) document.endpoints (thinned_componentArena settings document)
  rw [← hthin] at hlast hroutes hreport
  have hgrows : arena.Grows (document.finalArena settings) := (sweeps_routes settings document).grows
  have hgrows' : arena.Grows (rest.finalArena settings) :=
    harena ▸ (sweeps_routes settings rest).grows
  have hget := Arena.get?_finish hlast.restedRight.filled
  have hget' := Arena.get?_finish hlast.restedLeft.filled
  refine ⟨harena, finalArena_keeps settings document, hlast.embeds.memo.symm, fun place hp => ?_,
    move, hlast.strict, hfixed, fun place model hm => ?_, ?_, ?_⟩
  · have hrested := componentArena_rested settings document
    obtain ⟨model, hmodel⟩ :=
      Option.isSome_iff_exists.mp (hrested.filled place (Nat.zero_le _) hp)
    refine ⟨?_, ?_, ?_⟩
    · exact Option.isSome_iff_exists.mpr ⟨model, (hget place).trans (hgrows.model? hmodel)⟩
    · exact ((hget' place).trans (hgrows'.model? hmodel)).trans
        ((hget place).trans (hgrows.model? hmodel)).symm
    · have hscope := hlast.embeds.scopes place (Nat.lt_of_lt_of_le hp hgrows'.slots.length_le)
      rw [hfixed place hp] at hscope
      exact (congrArg (Option.getD · []) hscope).symm
  · have hmodel := (hget' place).symm.trans hm
    have hp := Arena.model?_eq_some_lt hmodel
    refine ⟨(hget _).trans ?_, congrArg (Option.getD · []) (hlast.embeds.scopes place hp)⟩
    rw [hlast.embeds.model? hp, hmodel]
    rfl
  · exact hroutes
  · have hcomponents : ((document.surroundings settings).registry.resolveComponents {}).1.filter
        (fun entry => !isGone gone entry.source) =
          ((document.surroundings settings).registry.resolveComponents {}).1 := by
      refine List.filter_eq_self.mpr fun entry hentry => ?_
      obtain ⟨name, hname, _⟩ := (sweeps_components settings document).failed_of_mem hentry
      rw [hname, isGone_component]
      rfl
    refine (List.filter_append _ _).trans ?_
    refine congrArg₂ (· ++ ·) (hcomponents.trans ?_) hreport
    rw [← haround]
    rfl

end Document

end ApiAtlas
