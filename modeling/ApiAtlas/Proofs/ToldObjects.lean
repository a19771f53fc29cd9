import ApiAtlas.Proofs.ArenaJudgement
import ApiAtlas.Proofs.Inheritance
import ApiAtlas.Proofs.PlainComponents
import ApiAtlas.Proofs.ResolverSoundness

namespace ApiAtlas

/-- An object has what the text of its node declares, and requires what it lists. -/
structure ObjectModel.Tells (lookup : Lookup) (node : SchemaNode) (object : ObjectModel) :
    Prop where
  coherent : object.Coherent
  declares : ∀ name, object.Has (.declares name) ↔ lookup.Declares node name
  lists : ∀ name, object.Has (.asks name) → lookup.Lists node name
  keeps : ∀ name, lookup.Declares node name → lookup.Keeps false node name → object.Has (.asks name)

/-- A model tells what its node declares; one that is no object has a node that declares nothing. -/
def Model.Tells (lookup : Lookup) (node : SchemaNode) : Model → Prop
  | .object built => built.Tells lookup node
  | _ => ∀ name, ¬ lookup.Declares node name

namespace Model.Tells

variable {lookup : Lookup} {node other : SchemaNode} {schema : Schema} {model : Model}
  {name owner path : String}

/-- What is told of one node is told of another that is read the same. -/
theorem transfer (h : model.Tells lookup node)
    (hd : ∀ name, lookup.Declares node name ↔ lookup.Declares other name)
    (hl : ∀ name, lookup.Lists node name → lookup.Lists other name)
    (hk : ∀ name, lookup.Keeps false other name → lookup.Keeps false node name) :
    model.Tells lookup other := by
  cases model with
  | object built =>
    have ht : built.Tells lookup node := h
    exact ⟨ht.coherent, fun name => (ht.declares name).trans (hd name),
      fun name ha => hl name (ht.lists name ha),
      fun name hdeclares hkeeps => ht.keeps name ((hd name).mpr hdeclares) (hk name hkeeps)⟩
  | _ => exact fun name hdeclares => h name ((hd name).mpr hdeclares)

theorem of_bare (h : model.Tells lookup node.bare) : model.Tells lookup node :=
  h.transfer (fun _ => Lookup.declares_bare) (fun _ => Lookup.finds_of_bare)
    fun _ => Lookup.keeps_bare

theorem of_stands (h : model.Tells lookup (.inline schema)) (hs : lookup.Stands name owner schema)
    (named : Section.schemas.named? path = some name) : model.Tells lookup (.ref path) :=
  h.transfer (fun _ => hs.declares named) (fun _ => hs.finds named) fun _ => hs.keeps named

end Model.Tells

/-- An object in the making that is an object once it has a property. -/
structure Merged.Formed (merged : Merged) : Prop where
  keyed : merged.Keyed
  shaped : ∀ name, merged.Has (.declares name) → merged.shaped = true

/-- What comes of adding to an object: some properties, no requirement but those listed, and each
that is sure. -/
structure Merged.Takes (declared listed sure : String → Prop) (merged result : Merged) : Prop where
  declares : ∀ name, result.Has (.declares name) ↔ merged.Has (.declares name) ∨ declared name
  lists : ∀ name, result.Has (.asks name) → merged.Has (.asks name) ∨ listed name
  kept : ∀ name, merged.Has (.asks name) → result.Has (.asks name)
  keeps : ∀ name, sure name → result.Has (.asks name)

namespace Merged

variable {declared listed sure declared' listed' sure' : String → Prop}
  {merged middle result : Merged} {property : Property}

theorem formed_empty : ({} : Merged).Formed := ⟨keyed_empty, fun _ h => absurd h not_has_empty⟩

theorem Takes.refl (merged : Merged) :
    merged.Takes (fun _ => False) (fun _ => False) (fun _ => False) merged :=
  ⟨by simp, fun _ h => .inl h, fun _ h => h, nofun⟩

theorem Takes.trans (h : merged.Takes declared listed sure middle)
    (h' : middle.Takes declared' listed' sure' result) :
    merged.Takes (fun name => declared name ∨ declared' name)
      (fun name => listed name ∨ listed' name) (fun name => sure name ∨ sure' name) result := by
  refine ⟨fun name => ?_, fun name ha => ?_, fun name ha => ?_, fun name hs => ?_⟩
  · rw [h'.declares, h.declares, or_assoc]
  · rcases h'.lists name ha with hm | hl
    · exact (h.lists name hm).imp_right .inl
    · exact .inr (.inr hl)
  · exact h'.kept name (h.kept name ha)
  · exact hs.elim (fun hs => h'.kept name (h.keeps name hs)) (h'.keeps name)

theorem Takes.weaken (h : merged.Takes declared listed sure result)
    (hd : ∀ name, declared' name ↔ declared name) (hl : ∀ name, listed name → listed' name)
    (hs : ∀ name, sure' name → sure name) : merged.Takes declared' listed' sure' result :=
  ⟨fun name => by rw [h.declares, hd], fun name ha => (h.lists name ha).imp_right (hl name),
    h.kept, fun name hsure => h.keeps name (hs name hsure)⟩

theorem takes_insert (ho : property.required = false) :
    merged.Takes (· = property.name) (fun _ => False) (fun _ => False)
      (merged.insert property) := by
  refine ⟨fun name => ?_, fun name h => ?_, fun name h => has_insert.mpr (.inl h), nofun⟩
  · rw [has_insert]
    simp [Property.Has, eq_comm]
  · rcases has_insert.mp h with hm | hp
    · exact .inl hm
    · simp [Property.Has, ho] at hp

theorem takes_inherit (object : ObjectModel) (additional : Bool) :
    merged.Takes (fun name => object.Has (.declares name)) (fun name => object.Has (.asks name))
      (fun name => object.Has (.asks name)) (object.properties.foldl Merged.insert
        { merged with shaped := true, additional := additional }) :=
  ⟨fun _ => has_inherit object additional, fun _ => (has_inherit object additional).mp,
    fun _ h => (has_inherit object additional).mpr (.inl h),
    fun _ h => (has_inherit object additional).mpr (.inr h)⟩

theorem takes_shape (shaped : Bool) :
    merged.Takes (fun _ => False) (fun _ => False) (fun _ => False)
      { merged with shaped := merged.shaped || shaped } :=
  ⟨fun name => Iff.of_eq (by simp [Has]), fun _ h => .inl h, fun _ h => h, nofun⟩

theorem takes_require (required : List String) (additional : Bool) :
    merged.Takes (fun _ => False) (· ∈ required) (· ∈ required) { merged with
      required := required.foldl
        (fun names name => if names.contains name then names else names ++ [name]) merged.required
      additional := additional } := by
  refine ⟨fun name => ?_, fun name h => ?_, fun name h => has_require.mpr (.inl h),
    fun name h => has_require.mpr (.inr ⟨name, h, rfl⟩)⟩
  · rw [has_require]
    simp
  · rcases has_require.mp h with hm | ⟨other, ho, he⟩
    · exact .inl hm
    · cases he
      exact .inr ho

theorem Formed.insert (h : merged.Formed) (hs : merged.shaped = true) (property : Property) :
    (merged.insert property).Formed ∧ (merged.insert property).shaped = true :=
  ⟨⟨h.keyed.insert property, fun _ _ => hs⟩, hs⟩

theorem Formed.inherit (h : merged.Formed) (properties : List Property) (additional : Bool) :
    (properties.foldl Merged.insert
      { merged with shaped := true, additional := additional }).Formed := by
  have hkeyed : ({ merged with shaped := true, additional := additional } : Merged).Keyed :=
    ⟨h.keyed.named, h.keyed.nodup⟩
  refine ⟨Keyed.foldl_insert properties hkeyed, fun _ _ => ?_⟩
  have hshaped : (properties.foldl Merged.insert
      { merged with shaped := true, additional := additional }).Has .shaped :=
    (has_foldl_insert properties _).mpr (.inl rfl)
  exact hshaped

end Merged

namespace Arena

/-- What an arena says of finished components is told by their texts. -/
structure Told (lookup : Lookup) (arena : Arena) : Prop where
  stands : ∀ name id, Entries.get? arena.memo name = some id → ∃ owner schema,
    lookup.Stands name owner schema ∧ Entries.get? arena.memo owner = some id
  settled : ∀ owner schema id model, lookup.Own owner schema →
    Entries.get? arena.memo owner = some id → arena.model? id = some model →
      model.Tells lookup (.inline schema)

variable {lookup : Lookup} {arena : Arena} {name target owner path : String} {id : Nat}
  {model : Model} {node : SchemaNode} {schema : Schema}

theorem Told.empty (lookup : Lookup) : ({} : Arena).Told lookup :=
  ⟨fun _ _ h => by simp at h, fun _ _ _ _ _ h => by simp at h⟩

theorem Told.reserve (h : arena.Told lookup) (scope : List String) :
    (arena.reserve scope).2.Told lookup := by
  refine ⟨h.stands, fun owner schema id model ho hm hmodel => ?_⟩
  rw [model?_reserve] at hmodel
  exact h.settled owner schema id model ho hm hmodel

theorem Told.remember_own (h : arena.Told lookup) (hn : Entries.get? arena.memo name = none)
    (hf : name ∉ arena.failed) (ho : lookup.Own name schema) (hm : arena.model? id = none) :
    (arena.remember name id).Told lookup := by
  refine ⟨Placed.remember_own h.stands (grows_remember hn hf) ho,
    fun owner own place model hown hplace hmodel => ?_⟩
  exact h.settled owner own place model hown (get?_of_remember_empty hm hplace hmodel) hmodel

theorem Told.remember_alias (h : arena.Told lookup) (hg : arena.Grows (arena.remember name id))
    (ha : lookup.Alias name target) (ht : Entries.get? arena.memo target = some id) :
    (arena.remember name id).Told lookup := by
  refine ⟨Placed.remember_alias h.stands hg ha ht,
    fun owner own place model hown hplace hmodel => ?_⟩
  have hne : name ≠ owner := fun he => (he ▸ hown).not_alias ha
  rw [remember, Entries.get?_set_of_ne hne] at hplace
  exact h.settled owner own place model hown hplace hmodel

theorem Told.fill (h : arena.Told lookup) (hi : id < arena.slots.length)
    (ho : ∀ owner schema, lookup.Own owner schema → Entries.get? arena.memo owner = some id →
      model.Tells lookup (.inline schema)) : (arena.fill id model).Told lookup := by
  refine ⟨h.stands, fun owner schema place built hown hplace hmodel => ?_⟩
  rcases cases_of_model?_fill hi hmodel with ⟨rfl, rfl⟩ | hold
  · exact ho owner schema hown hplace
  · exact h.settled owner schema place built hown hplace hold

/-- The model that a reference leads to tells what the reference declares. -/
theorem Told.tells_ref (h : arena.Told lookup) (named : Section.schemas.named? path = some name)
    (hm : Entries.get? arena.memo name = some id) (hmodel : arena.model? id = some model) :
    model.Tells lookup (.ref path) := by
  obtain ⟨owner, schema, hstands, hplace⟩ := h.stands name id hm
  exact (h.settled owner schema id model hstands.owns hplace hmodel).of_stands hstands named

end Arena

end ApiAtlas
