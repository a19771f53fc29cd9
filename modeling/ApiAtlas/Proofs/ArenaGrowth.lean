import ApiAtlas.Proofs.EntryLookup
import ApiAtlas.Proofs.ResolvingOutcome
import ApiAtlas.Proofs.SchemaForm

namespace ApiAtlas

namespace Arena

variable {arena before after : Arena} {id place : Nat} {model : Model} {name : String}
  {scope : List String}

/-- Every component that was noted before is noted after. -/
def Recalls (before after : Arena) : Prop :=
  ∀ name, Entries.has before.memo name = true → Entries.has after.memo name = true

theorem Recalls.refl (arena : Arena) : arena.Recalls arena := fun _ h => h

theorem Recalls.trans {first second third : Arena} (h : first.Recalls second)
    (h' : second.Recalls third) : first.Recalls third :=
  fun name hn => h' name (h name hn)

theorem recalls_remember (arena : Arena) (name : String) (id : ModelId) :
    arena.Recalls (arena.remember name id) := by
  intro other ho
  have hold : other ∈ Entries.keys arena.memo := Entries.has_iff_mem_keys.mp ho
  exact Entries.has_iff_mem_keys.mpr (Entries.mem_keys_set.mpr (.inr hold))

/-- One arena comes of another by adding to it. -/
structure Grows (before after : Arena) : Prop where
  slots : before.slots <+: after.slots
  scopes : before.scopes <+: after.scopes
  memo : before.memo <+: after.memo
  failed : after.failed = before.failed
  unfailed : ∀ name, Entries.has after.memo name = true → Entries.has before.memo name = true ∨
    name ∉ before.failed

theorem Grows.refl (arena : Arena) : arena.Grows arena :=
  ⟨List.prefix_rfl, List.prefix_rfl, List.prefix_rfl, rfl, fun _ h => .inl h⟩

theorem Grows.trans {first second third : Arena} (h : first.Grows second)
    (h' : second.Grows third) : first.Grows third := by
  refine ⟨h.slots.trans h'.slots, h.scopes.trans h'.scopes, h.memo.trans h'.memo,
    h'.failed.trans h.failed, ?_⟩
  intro name hn
  rcases h'.unfailed name hn with hm | hf
  · exact h.unfailed name hm
  · exact .inr (h.failed ▸ hf)

/-- Cutting off what was added gives back the arena of before. -/
theorem Grows.rollback (h : before.Grows after)
    (aligned : before.scopes.length = before.slots.length) :
    after.rollback before.checkpoint = before := by
  have hs := List.prefix_iff_eq_take.mp h.slots
  have hc := List.prefix_iff_eq_take.mp h.scopes
  have hm := List.prefix_iff_eq_take.mp h.memo
  have hf := h.failed
  cases before with
  | mk slots scopes memo failed =>
    cases after with
    | mk slots' scopes' memo' failed' =>
      simp only at aligned hs hc hm hf
      simp only [Arena.rollback, Arena.checkpoint, mk.injEq, ← aligned]
      exact ⟨(aligned ▸ hs.symm), hc.symm, hm.symm, hf⟩

theorem Grows.memo_get? (h : before.Grows after) (hm : Entries.get? before.memo name = some id) :
    Entries.get? after.memo name = some id :=
  Entries.get?_of_isPrefix h.memo hm

theorem Grows.recalls (h : before.Grows after) : before.Recalls after := by
  intro name hm
  obtain ⟨id, hi⟩ := Entries.has_iff.mp hm
  exact Entries.has_iff.mpr ⟨id, h.memo_get? hi⟩

theorem Grows.slots_getElem? (h : before.Grows after) (hi : id < before.slots.length) :
    after.slots[id]? = before.slots[id]? := by
  obtain ⟨added, he⟩ := h.slots
  rw [← he, List.getElem?_append_left hi]

theorem model?_eq_some_lt (h : arena.model? id = some model) : id < arena.slots.length := by
  unfold Arena.model? at h
  by_contra hn
  simp [List.getElem?_eq_none (Nat.le_of_not_lt hn)] at h

theorem Grows.model? (h : before.Grows after) (hm : before.model? id = some model) :
    after.model? id = some model := by
  have hi := model?_eq_some_lt hm
  unfold Arena.model? at hm ⊢
  rw [h.slots_getElem? hi, hm]

/-- A place that was reserved and not filled before stays so while others work. -/
theorem Grows.model?_eq_none (h : before.Grows after) (hi : id < before.slots.length)
    (hm : before.model? id = none) : after.model? id = none := by
  unfold Arena.model? at hm ⊢
  rw [h.slots_getElem? hi, hm]

/-- Every place that was added has its model. -/
def Filled (before after : Arena) : Prop :=
  ∀ id : Nat, before.slots.length ≤ id → id < after.slots.length → (after.model? id).isSome

theorem Filled.refl (arena : Arena) : arena.Filled arena := by
  intro id hl hu
  omega

theorem Filled.trans {first second third : Arena} (h : first.Filled second)
    (hg : second.Grows third) (h' : second.Filled third) : first.Filled third := by
  intro id hl hu
  by_cases hi : id < second.slots.length
  · obtain ⟨model, hm⟩ := Option.isSome_iff_exists.mp (h id hl hi)
    simp [hg.model? hm]
  · exact h' id (Nat.le_of_not_lt hi) hu

/-- A model that is finished together with all that it has in place. -/
inductive Settled (arena : Arena) : ModelId → Prop
  | intro {id : ModelId} {model : Model} (found : arena.model? id = some model)
      (children : ∀ child, Resolved.value child ∈ model.children → Settled arena child) :
      Settled arena id

theorem Settled.mono (hm : ∀ id model, before.model? id = some model → after.model? id = some model)
    (h : before.Settled id) : after.Settled id := by
  induction h with
  | intro found _ ih => exact .intro (hm _ _ found) ih

theorem Settled.lt (h : arena.Settled id) : id < arena.slots.length := by
  cases h with
  | intro found _ => exact model?_eq_some_lt found

/-- What a reference or a place promises: the component is noted with it, or the model is there. -/
def Holds (arena : Arena) : Resolved → Prop
  | .ref name id => Entries.get? arena.memo name = some id
  | .value id => arena.Settled id

theorem Grows.holds {resolved : Resolved} (h : before.Grows after) (hh : before.Holds resolved) :
    after.Holds resolved := by
  cases resolved with
  | ref name id => exact h.memo_get? hh
  | value id => exact hh.mono fun _ _ => h.model?

/-- A component that is another name, with the name that it stands for. -/
def AliasOf (registry : Registry) (name target : String) : Prop :=
  ∃ body path, Entries.get? registry.schemas name = some body ∧ body.bare = .ref path ∧
    Section.schemas.named? path = some target

theorem AliasOf.unique {registry : Registry} {target other : String}
    (h : AliasOf registry name target) (h' : AliasOf registry name other) : target = other := by
  obtain ⟨body, path, hb, hp, ht⟩ := h
  obtain ⟨body', path', hb', hp', ht'⟩ := h'
  cases Option.some.inj (hb.symm.trans hb')
  cases hp.symm.trans hp'
  exact Option.some.inj (ht.symm.trans ht')

/-- A component with a body of its own is not another name. -/
theorem not_aliasOf {registry : Registry} {target : String} {body : SchemaNode} {schema : Schema}
    (hb : Entries.get? registry.schemas name = some body) (hbare : body.bare = .inline schema) :
    ¬ AliasOf registry name target := by
  rintro ⟨other, path, ho, hp, _⟩
  cases Option.some.inj (hb.symm.trans ho)
  cases hbare.symm.trans hp

/-- What is true of an arena at any time. -/
structure Sound (registry : Registry) (arena : Arena) : Prop where
  aligned : arena.scopes.length = arena.slots.length
  placed : ∀ pair ∈ arena.memo, pair.2 < arena.slots.length
  linked : ∀ id model, arena.model? id = some model → ∀ child ∈ model.children, arena.Holds child
  aliased : ∀ name id target, Entries.get? arena.memo name = some id →
    AliasOf registry name target → Entries.get? arena.memo target = some id

variable {registry : Registry}

theorem Sound.empty (registry : Registry) : Sound registry {} :=
  ⟨rfl, fun _ h => by simp at h, fun _ _ h => by simp [Arena.model?] at h,
    fun _ _ _ h => by simp at h⟩

theorem Sound.lt_of_get? (h : arena.Sound registry) (hn : Entries.get? arena.memo name = some id) :
    id < arena.slots.length :=
  h.placed (name, id) (Entries.mem_of_get? hn)

theorem Sound.holds_lt {resolved : Resolved} (h : arena.Sound registry)
    (hr : arena.Holds resolved) : resolved.id < arena.slots.length := by
  cases resolved with
  | ref name id => exact h.lt_of_get? hr
  | value id => exact hr.lt

theorem grows_reserve (arena : Arena) (scope : List String) :
    arena.Grows (arena.reserve scope).2 :=
  ⟨List.prefix_append _ _, List.prefix_append _ _, List.prefix_rfl, rfl, fun _ h => .inl h⟩

theorem model?_reserve (arena : Arena) (scope : List String) (id : Nat) :
    (arena.reserve scope).2.model? id = arena.model? id := by
  by_cases hi : id < arena.slots.length
  · unfold Arena.model?
    rw [(grows_reserve arena scope).slots_getElem? hi]
  · have hn : arena.slots[id]? = none := List.getElem?_eq_none (Nat.le_of_not_lt hi)
    simp only [Arena.model?, Arena.reserve, hn]
    by_cases he : id = arena.slots.length
    · simp [he]
    · rw [List.getElem?_eq_none (by simp only [List.length_append, List.length_singleton]; omega)]

theorem lt_reserve (arena : Arena) (scope : List String) :
    arena.slots.length < (arena.reserve scope).2.slots.length := by
  simp [Arena.reserve]

/-- A new place has no model. -/
theorem model?_reserve_self (arena : Arena) (scope : List String) :
    (arena.reserve scope).2.model? arena.slots.length = none := by
  rw [model?_reserve]
  simp [Arena.model?]

@[simp] theorem model?_remember (arena : Arena) (name : String) (place id : ModelId) :
    (arena.remember name place).model? id = arena.model? id := rfl

theorem Sound.reserve (h : arena.Sound registry) (scope : List String) :
    (arena.reserve scope).2.Sound registry := by
  refine ⟨?_, ?_, ?_, h.aliased⟩
  · simp [Arena.reserve, h.aligned]
  · intro pair hn
    have hi := h.placed pair hn
    simp only [Arena.reserve, List.length_append, List.length_singleton]
    exact Nat.lt_succ_of_lt hi
  · intro id model hm child hc
    rw [model?_reserve] at hm
    exact (grows_reserve arena scope).holds (h.linked id model hm child hc)

theorem grows_remember (hn : Entries.get? arena.memo name = none) (hf : name ∉ arena.failed) :
    arena.Grows (arena.remember name id) := by
  refine ⟨List.prefix_rfl, List.prefix_rfl, ?_, rfl, ?_⟩
  · simp [Arena.remember, Entries.set_of_get?_eq_none hn]
  · intro other ho
    obtain ⟨value, hv⟩ := Entries.has_iff.mp ho
    simp only [Arena.remember, Entries.get?_set] at hv
    split at hv
    next he => exact .inr (he ▸ hf)
    next => exact .inl (Entries.has_iff.mpr ⟨value, hv⟩)

/-- A name was noted before, or is the one that was noted last. -/
theorem cases_of_get?_remember {other : String}
    (h : Entries.get? (arena.remember name id).memo other = some place) :
    name = other ∧ id = place ∨ Entries.get? arena.memo other = some place := by
  simp only [Arena.remember, Entries.get?_set] at h
  split at h
  next he => exact .inl ⟨he, Option.some.inj h⟩
  next => exact .inr h

theorem get?_remember {other : String}
    (h : Entries.get? (arena.remember name id).memo other = some place) :
    name = other ∨ Entries.get? arena.memo other = some place :=
  (cases_of_get?_remember h).imp_left And.left

theorem Sound.remember (h : arena.Sound registry) (hn : Entries.get? arena.memo name = none)
    (hf : name ∉ arena.failed) (hi : id < arena.slots.length)
    (ha : ∀ target, AliasOf registry name target → Entries.get? arena.memo target = some id) :
    (arena.remember name id).Sound registry := by
  have hg : arena.Grows (arena.remember name id) := grows_remember hn hf
  refine ⟨h.aligned, ?_, ?_, ?_⟩
  · intro pair hp
    rcases Entries.mem_set hp with rfl | ho
    · exact hi
    · exact h.placed pair ho
  · intro place model hm child hc
    exact hg.holds (h.linked place model hm child hc)
  · intro other place target ho hao
    rcases cases_of_get?_remember ho with ⟨rfl, rfl⟩ | hold
    · exact hg.memo_get? (ha target hao)
    · exact hg.memo_get? (h.aliased other place target hold hao)

/-- What was noted already is noted again without a change. -/
theorem remember_of_get? (h : Entries.get? arena.memo name = some id) :
    arena.remember name id = arena := by
  simp [Arena.remember, Entries.set_of_get?_eq_some h]

theorem filled_remember (arena : Arena) (name : String) (id : ModelId) :
    arena.Filled (arena.remember name id) :=
  Filled.refl arena

/-- Another name is noted with the place of the name that it stands for. -/
theorem Sound.remember_alias {target : String} (h : arena.Sound registry)
    (ha : AliasOf registry name target) (ht : Entries.get? arena.memo target = some id)
    (hf : name ∉ arena.failed) :
    (arena.remember name id).Sound registry ∧ arena.Grows (arena.remember name id) := by
  cases hn : Entries.get? arena.memo name with
  | none =>
    refine ⟨h.remember hn hf (h.lt_of_get? ht) fun other ho => ?_, grows_remember hn hf⟩
    rw [ho.unique ha]
    exact ht
  | some place =>
    have hp := h.aliased name place target hn ha
    rw [ht] at hp
    cases Option.some.inj hp
    rw [remember_of_get? hn]
    exact ⟨h, Grows.refl arena⟩

theorem model?_fill (hi : id < arena.slots.length) (place : Nat) :
    (arena.fill id model).model? place = if id = place then some model else arena.model? place := by
  simp only [Arena.model?, Arena.fill, List.getElem?_set]
  by_cases he : id = place
  · subst he
    simp [hi]
  · simp [he]

/-- A model was there before, or is the one that was put there. -/
theorem cases_of_model?_fill {held : Model} (hi : id < arena.slots.length)
    (hp : (arena.fill id model).model? place = some held) :
    id = place ∧ model = held ∨ arena.model? place = some held := by
  rw [model?_fill hi] at hp
  split at hp
  next he => exact .inl ⟨he, Option.some.inj hp⟩
  next => exact .inr hp

theorem model?_fill_of_empty (hi : id < arena.slots.length) (hnone : arena.model? id = none)
    {held : Model} (hp : arena.model? place = some held) :
    (arena.fill id model).model? place = some held := by
  rw [model?_fill hi]
  split
  next he =>
    rw [← he, hnone] at hp
    cases hp
  next => exact hp

theorem Holds.fill {resolved : Resolved} (hi : id < arena.slots.length)
    (hnone : arena.model? id = none) (h : arena.Holds resolved) :
    (arena.fill id model).Holds resolved := by
  cases resolved with
  | ref name id => exact h
  | value id => exact h.mono fun _ _ => model?_fill_of_empty hi hnone

/-- A place that was reserved is there and has no model, whatever was added since. -/
theorem Grows.reserved (hg : before.Grows after) (hb : before.slots = arena.slots ++ [none]) :
    arena.slots.length < after.slots.length ∧ after.model? arena.slots.length = none := by
  have hlt : arena.slots.length < before.slots.length := by simp [hb]
  have hnone : before.model? arena.slots.length = none := by simp [Arena.model?, hb]
  exact ⟨Nat.lt_of_lt_of_le hlt hg.slots.length_le, hg.model?_eq_none hlt hnone⟩

/-- A place is reserved, work adds to the arena, and a model is put there. -/
theorem Grows.fill_reserved (hg : (arena.reserve scope).2.Grows after) :
    arena.Grows (after.fill arena.slots.length model) := by
  refine ⟨?_, (grows_reserve arena scope).scopes.trans hg.scopes, hg.memo, hg.failed, hg.unfailed⟩
  obtain ⟨added, he⟩ := hg.slots
  refine ⟨some model :: added, ?_⟩
  simp [Arena.fill, ← he, Arena.reserve]

/-- A place is reserved, work adds to the arena, and the model that comes of it is put there. -/
theorem Sound.fill_reserved (hg : (arena.reserve scope).2.Grows after)
    (hf : (arena.reserve scope).2.Filled after)
    (ha : after.Sound registry) (hm : ∀ child ∈ model.children, after.Holds child) :
    (after.fill arena.slots.length model).Sound registry ∧
      arena.Grows (after.fill arena.slots.length model) ∧
      arena.Filled (after.fill arena.slots.length model) ∧
      (after.fill arena.slots.length model).Settled arena.slots.length := by
  have hr : (arena.reserve scope).2.slots.length = arena.slots.length + 1 := by
    simp [Arena.reserve]
  obtain ⟨hl, hnone⟩ := hg.reserved rfl
  refine ⟨⟨?_, ?_, ?_, ha.aliased⟩, hg.fill_reserved, ?_, ?_⟩
  · simp [Arena.fill, ha.aligned]
  · intro pair hp
    simpa [Arena.fill] using ha.placed pair hp
  · intro place m hp child hc
    rcases cases_of_model?_fill hl hp with ⟨-, rfl⟩ | hold
    · exact (hm child hc).fill hl hnone
    · exact (ha.linked place m hold child hc).fill hl hnone
  · intro place hlow hup
    rw [model?_fill hl]
    split
    next => rfl
    next hne =>
      have hlen : (after.fill arena.slots.length model).slots.length = after.slots.length := by
        simp [Arena.fill]
      exact hf place (by omega) (by omega)
  · refine .intro (model?_fill hl _ ▸ if_pos rfl) fun child hc => ?_
    exact Holds.fill hl hnone (hm (.value child) hc)

theorem Sound.push (h : arena.Sound registry) (scope : List String) (hc : model.children = []) :
    (arena.push model scope).2.Sound registry ∧ arena.Grows (arena.push model scope).2 ∧
      arena.Filled (arena.push model scope).2 ∧
      (arena.push model scope).2.Settled arena.slots.length :=
  Sound.fill_reserved (Grows.refl _) (Filled.refl _) (h.reserve scope) (by simp [hc])

end Arena

/-- Work adds to the arena; when it comes to a result, all the places that it added have their
models. -/
def growing (registry : Registry) : Regime where
  holds := Arena.Sound registry
  leads before after := before.Grows after ∧ before.Filled after
  fails := Arena.Grows
  refl arena := ⟨Arena.Grows.refl arena, Arena.Filled.refl arena⟩
  trans h h' := ⟨h.1.trans h'.1, h.2.trans h'.1 h'.2⟩
  fails_after h h' := h.1.trans h'

end ApiAtlas
