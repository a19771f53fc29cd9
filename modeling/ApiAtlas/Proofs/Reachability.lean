import ApiAtlas.Proofs.ResolverSoundness
import Mathlib.Data.Set.Insert
import Mathlib.Logic.Relation

namespace ApiAtlas

open Relation

theorem Entries.mem_set_of_ne {κ α : Type} [DecidableEq κ] {entries : List (κ × α)} {key : κ}
    {value : α} {pair : κ × α} (h : pair ∈ entries) (hn : pair.1 ≠ key) :
    pair ∈ Entries.set key value entries := by
  induction entries with
  | nil => simp at h
  | cons first rest ih =>
    obtain ⟨k, v⟩ := first
    rw [Entries.set]
    split
    next hk =>
      rcases List.mem_cons.mp h with rfl | hr
      · exact absurd hk hn
      · exact List.mem_cons_of_mem _ hr
    next =>
      rcases List.mem_cons.mp h with rfl | hr
      · exact List.mem_cons_self
      · exact List.mem_cons_of_mem _ (ih hr)

theorem Entries.mem_set_self {κ α : Type} [DecidableEq κ] (entries : List (κ × α)) (key : κ)
    (value : α) : (key, value) ∈ Entries.set key value entries :=
  Entries.mem_of_get? Entries.get?_set_self

/-- The places of some models. -/
def placesOf (resolved : List Resolved) : Set ModelId := {id | ∃ r ∈ resolved, r.id = id}

/-- The places of the models that an object in the making is made of. -/
def Merged.places (merged : Merged) : Set ModelId :=
  {id | ∃ pair ∈ merged.properties, pair.2.model.id = id}

namespace Arena

/-- A model is made of another one. -/
def Uses (arena : Arena) (outer inner : ModelId) : Prop :=
  ∃ model, arena.model? outer = some model ∧ inner ∈ placesOf model.children

/-- A place is reached from a component or from one of some places. -/
def Reaches (arena : Arena) (roots : Set ModelId) (id : ModelId) : Prop :=
  ∃ root, (root ∈ roots ∨ ∃ name, Entries.get? arena.memo name = some root) ∧
    ReflTransGen arena.Uses root id

/-- Every place is reached. -/
def Tidy (arena : Arena) (roots : Set ModelId) : Prop :=
  ∀ id, id < arena.slots.length → arena.Reaches roots id

variable {arena before after : Arena} {roots wider : Set ModelId} {id place : ModelId}
  {model : Model} {name : String}

theorem Reaches.root (h : id ∈ roots) : arena.Reaches roots id := ⟨id, .inl h, .refl⟩

theorem Reaches.component (h : Entries.get? arena.memo name = some id) : arena.Reaches roots id :=
  ⟨id, .inr ⟨name, h⟩, .refl⟩

theorem Reaches.trans (h : arena.Reaches roots place) (hu : ReflTransGen arena.Uses place id) :
    arena.Reaches roots id := by
  obtain ⟨root, hroot, hr⟩ := h
  exact ⟨root, hroot, hr.trans hu⟩

theorem Reaches.mono (h : arena.Reaches roots id)
    (hr : ∀ root ∈ roots, arena.Reaches wider root) : arena.Reaches wider id := by
  obtain ⟨root, hroot | hcomponent, hu⟩ := h
  · exact (hr root hroot).trans hu
  · exact ⟨root, .inr hcomponent, hu⟩

theorem Tidy.mono (h : arena.Tidy roots) (hr : ∀ root ∈ roots, arena.Reaches wider root) :
    arena.Tidy wider :=
  fun id hi => (h id hi).mono hr

theorem Tidy.subset (h : arena.Tidy roots) (hr : roots ⊆ wider) : arena.Tidy wider :=
  h.mono fun _ hroot => .root (hr hroot)

theorem tidy_empty (roots : Set ModelId) : ({} : Arena).Tidy roots := nofun

/-- What is reached stays so where models and components are kept. -/
theorem Reaches.kept (h : before.Reaches roots id)
    (hmodel : ∀ place model, before.model? place = some model → after.model? place = some model)
    (hmemo : ∀ name place, Entries.get? before.memo name = some place →
      Entries.get? after.memo name = some place) : after.Reaches roots id := by
  obtain ⟨root, hroot, hu⟩ := h
  refine ⟨root, ?_, ReflTransGen.mono (fun outer inner hu => ?_) _ _ hu⟩
  · rcases hroot with hr | ⟨name, hn⟩
    · exact .inl hr
    · exact .inr ⟨name, hmemo name root hn⟩
  · obtain ⟨model, hm, hc⟩ := hu
    exact ⟨model, hmodel _ _ hm, hc⟩

theorem Reaches.grows (h : before.Reaches roots id) (hg : before.Grows after) :
    after.Reaches roots id :=
  h.kept (fun _ _ => hg.model?) fun _ _ => hg.memo_get?

/-- A new place is one of those that are used. -/
theorem Tidy.reserve (h : arena.Tidy roots) (scope : List String) :
    (arena.reserve scope).2.Tidy (insert arena.slots.length roots) := by
  intro id hi
  by_cases hold : id < arena.slots.length
  · refine ((h id hold).grows (grows_reserve arena scope)).mono fun root hr => ?_
    exact .root (Set.mem_insert_of_mem _ hr)
  · have hnew : id = arena.slots.length := by
      simp only [Arena.reserve, List.length_append, List.length_singleton] at hi
      omega
    exact .root (hnew ▸ Set.mem_insert _ _)

theorem Tidy.remember (h : arena.Tidy roots) (hg : arena.Grows (arena.remember name id)) :
    (arena.remember name id).Tidy roots :=
  fun place hp => (h place hp).grows hg

/-- A model is put at its place, which is used; so what the model is made of is used. -/
theorem Tidy.fill (h : arena.Tidy (roots ∪ placesOf model.children))
    (hi : id < arena.slots.length) (hn : arena.model? id = none)
    (hr : (arena.fill id model).Reaches roots id) : (arena.fill id model).Tidy roots := by
  have hmodel : ∀ place other, arena.model? place = some other →
      (arena.fill id model).model? place = some other :=
    fun _ _ => model?_fill_of_empty hi hn
  intro place hp
  have hlt : place < arena.slots.length := by simpa [Arena.fill] using hp
  refine ((h place hlt).kept hmodel fun _ _ hm => hm).mono fun root hroot => ?_
  rcases hroot with hold | hchild
  · exact .root hold
  · have hfilled : (arena.fill id model).model? id = some model := by
      rw [model?_fill hi, if_pos rfl]
    exact hr.trans (.single ⟨model, hfilled, hchild⟩)

end Arena

namespace Merged

/-- Each model that an object in the making is made of is used by a component, or was brought under
one of some names. -/
def Secured (merged : Merged) (brought : Set String) (arena : Arena) : Prop :=
  ∀ pair ∈ merged.properties, pair.1 ∈ brought ∨ arena.Reaches ∅ pair.2.model.id

variable {merged : Merged} {brought wider : Set String} {before after arena : Arena}
  {roots : Set ModelId} {property : Property}

theorem Secured.leads (h : merged.Secured brought before) (hg : before.Grows after) :
    merged.Secured brought after :=
  fun pair hp => (h pair hp).imp_right fun hr => hr.grows hg

theorem Secured.subset (h : merged.Secured brought arena) (hb : brought ⊆ wider) :
    merged.Secured wider arena :=
  fun pair hp => (h pair hp).imp_left fun hn => hb hn

theorem secured_empty (arena : Arena) : ({} : Merged).Secured brought arena := by
  intro pair hp
  simp at hp

theorem Secured.insert (h : merged.Secured brought arena)
    (hp : property.name ∈ brought ∨ arena.Reaches ∅ property.model.id) :
    (merged.insert property).Secured brought arena := by
  intro pair hm
  rcases Entries.mem_set hm with rfl | hold
  · exact hp
  · exact h pair hold

/-- A definition that is replaced is not the only use of its model. -/
theorem Secured.tidy_insert (h : merged.Secured brought arena) (hn : property.name ∉ brought)
    (ht : arena.Tidy (roots ∪ merged.places ∪ {property.model.id})) :
    arena.Tidy (roots ∪ (merged.insert property).places) := by
  refine ht.mono fun root hroot => ?_
  rcases hroot with (hr | ⟨pair, hp, he⟩) | hnew
  · exact .root (.inl hr)
  · by_cases hname : pair.1 = property.name
    · have hused : arena.Reaches ∅ root := he ▸ (h pair hp).resolve_left (hname ▸ hn)
      exact hused.mono fun _ hnone => absurd hnone (Set.notMem_empty _)
    · exact .root (.inr ⟨pair, Entries.mem_set_of_ne hp hname, he⟩)
  · exact .root (.inr ⟨_, Entries.mem_set_self _ _ _, hnew.symm⟩)

/-- What is merged out of models that are used leaves nothing over. -/
theorem Secured.inherit (properties : List Property)
    (hp : ∀ property ∈ properties, property.name ∉ brought ∧ arena.Reaches ∅ property.model.id) :
    ∀ merged : Merged, merged.Secured brought arena → arena.Tidy (roots ∪ merged.places) →
      (properties.foldl Merged.insert merged).Secured brought arena ∧
        arena.Tidy (roots ∪ (properties.foldl Merged.insert merged).places) := by
  induction properties with
  | nil => exact fun merged hs ht => ⟨hs, ht⟩
  | cons property rest ih =>
    intro merged hs ht
    obtain ⟨hname, hused⟩ := hp property List.mem_cons_self
    refine ih (fun other ho => hp other (List.mem_cons_of_mem _ ho)) _ (hs.insert (.inr hused)) ?_
    exact hs.tidy_insert hname (ht.subset Set.subset_union_left)

end Merged

end ApiAtlas
