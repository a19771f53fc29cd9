import ApiAtlas.Proofs.GoodComponents

namespace ApiAtlas

/-- What a property adds to an object. -/
def Property.Has (property : Property) : Fact → Prop
  | .declares name => property.name = name
  | .asks name => property.name = name ∧ property.required = true
  | .shaped => False

/-- What an object has. -/
def ObjectModel.Has (object : ObjectModel) : Fact → Prop
  | .declares name => ∃ property ∈ object.properties, property.name = name
  | .asks name => ∃ property ∈ object.properties, property.name = name ∧ property.required = true
  | .shaped => True

/-- What an object in the making has. -/
def Merged.Has (merged : Merged) : Fact → Prop
  | .declares name => name ∈ Entries.keys merged.properties
  | .asks name => name ∈ merged.required ∨
      ∃ property, Entries.get? merged.properties name = some property ∧ property.required = true
  | .shaped => merged.shaped = true

/-- An object in the making keeps each property by its name. -/
structure Merged.Keyed (merged : Merged) : Prop where
  named : ∀ pair ∈ merged.properties, pair.2.name = pair.1
  nodup : (Entries.keys merged.properties).Nodup

namespace Merged

variable {merged : Merged} {property : Property} {fact : Fact}

theorem keyed_empty : ({} : Merged).Keyed := ⟨nofun, List.nodup_nil⟩

theorem not_has_empty : ¬ ({} : Merged).Has fact := by
  cases fact <;> simp [Has, Entries.keys]

theorem Keyed.insert (h : merged.Keyed) (property : Property) : (merged.insert property).Keyed := by
  refine ⟨fun pair hp => ?_, Entries.nodup_keys_set h.nodup⟩
  rcases Entries.mem_set hp with rfl | ho
  · rfl
  · exact h.named pair ho

theorem Keyed.foldl_insert (properties : List Property) :
    ∀ {merged : Merged}, merged.Keyed → (properties.foldl Merged.insert merged).Keyed := by
  induction properties with
  | nil => exact id
  | cons property rest ih => exact fun h => ih (h.insert property)

theorem has_insert : (merged.insert property).Has fact ↔ merged.Has fact ∨ property.Has fact := by
  cases fact with
  | declares name =>
    simp only [Has, Property.Has, insert, Entries.mem_keys_set]
    exact Or.comm
  | shaped => simp [Has, Property.Has, insert]
  | asks name =>
    simp only [Has, Property.Has, insert, Entries.get?_set]
    by_cases he : property.name = name
    · subst he
      cases Entries.get? merged.properties property.name <;> simp [or_assoc]
    · simp [he]

theorem has_foldl_insert (properties : List Property) : ∀ merged : Merged,
    (properties.foldl Merged.insert merged).Has fact ↔
      merged.Has fact ∨ ∃ property ∈ properties, property.Has fact := by
  induction properties with
  | nil => simp
  | cons property rest ih =>
    intro merged
    rw [List.foldl_cons, ih, has_insert]
    simp [or_assoc]

/-- What the properties of an object add to another that is an object already. -/
theorem has_inherit (object : ObjectModel) (additional : Bool) :
    (object.properties.foldl Merged.insert
        { merged with shaped := true, additional := additional }).Has fact ↔
      merged.Has fact ∨ object.Has fact := by
  rw [has_foldl_insert]
  cases fact with
  | declares name => rfl
  | asks name => rfl
  | shaped => simp [Has, ObjectModel.Has]

theorem mem_required_foldl {property : String} (required : List String) :
    ∀ names : List String, property ∈ required.foldl
      (fun names name => if names.contains name then names else names ++ [name]) names ↔
        property ∈ names ∨ property ∈ required := by
  induction required with
  | nil => simp
  | cons first rest ih =>
    intro names
    rw [List.foldl_cons, ih]
    split
    next hc =>
      have hm : first ∈ names := by simpa using hc
      constructor
      · exact fun h => h.imp id (List.mem_cons_of_mem _)
      · rintro (hn | hr)
        · exact .inl hn
        · rcases List.mem_cons.mp hr with rfl | hrest
          · exact .inl hm
          · exact .inr hrest
    next => simp [or_assoc]

theorem has_shape {shaped : Bool} :
    ({ merged with shaped := merged.shaped || shaped } : Merged).Has fact ↔
    merged.Has fact ∨ shaped = true ∧ fact = .shaped := by
  cases fact <;> simp [Has]

theorem has_require {required : List String} {additional : Bool} :
    ({ merged with
      required := required.foldl
        (fun names name => if names.contains name then names else names ++ [name]) merged.required
      additional := additional } : Merged).Has fact ↔
      merged.Has fact ∨ ∃ name ∈ required, fact = .asks name := by
  cases fact with
  | declares name => simp [Has]
  | asks name =>
    simp only [Has, mem_required_foldl]
    simp [or_right_comm]
  | shaped => simp [Has]

/-- An object has what was put together for it; of what is required only what is there. -/
theorem has_finish (h : merged.Keyed) {object : ObjectModel}
    (ho : object.properties = merged.finish) :
    object.Has fact ↔ match fact with
      | .declares name => merged.Has (.declares name)
      | .asks name => merged.Has (.declares name) ∧ merged.Has (.asks name)
      | .shaped => True := by
  have hdeclares : ∀ name, object.Has (.declares name) ↔ merged.Has (.declares name) := by
    intro name
    simp only [ObjectModel.Has, Has, ho, finish, List.mem_map, Entries.keys]
    constructor
    · rintro ⟨_, ⟨pair, hp, rfl⟩, hn⟩
      exact ⟨pair, hp, (h.named pair hp).symm.trans hn⟩
    · rintro ⟨pair, hp, hn⟩
      exact ⟨_, ⟨pair, hp, rfl⟩, (h.named pair hp).trans hn⟩
  cases fact with
  | declares name => exact hdeclares name
  | shaped => exact Iff.rfl
  | asks name =>
    simp only [ObjectModel.Has, Has, ho, finish, List.mem_map, Entries.keys]
    constructor
    · rintro ⟨_, ⟨⟨key, property⟩, hp, rfl⟩, hn, hr⟩
      have hkey : property.name = key := h.named _ hp
      obtain rfl : key = name := hkey.symm.trans hn
      refine ⟨⟨_, hp, rfl⟩, ?_⟩
      rcases Bool.or_eq_true_iff.mp hr with hrequired | hlisted
      · exact .inr ⟨property, Entries.get?_of_mem_nodup h.nodup hp, hrequired⟩
      · exact .inl (hkey ▸ List.contains_iff_mem.mp hlisted)
    · rintro ⟨⟨⟨key, property⟩, hp, rfl⟩, hr⟩
      have hkey : property.name = key := h.named _ hp
      refine ⟨_, ⟨_, hp, rfl⟩, hkey, Bool.or_eq_true_iff.mpr ?_⟩
      rcases hr with hlisted | ⟨other, ho, hrequired⟩
      · exact .inr (List.contains_iff_mem.mpr (hkey ▸ hlisted))
      · rw [Entries.get?_of_mem_nodup h.nodup hp] at ho
        exact .inl (Option.some.inj ho ▸ hrequired)

end Merged

/-- Properties of one name are required alike. -/
def ObjectModel.Coherent (object : ObjectModel) : Prop :=
  ∀ property ∈ object.properties, object.Has (.asks property.name) → property.required = true

theorem Merged.Keyed.coherent {merged : Merged} (h : merged.Keyed) {object : ObjectModel}
    (ho : object.properties = merged.finish) : object.Coherent := by
  intro property hp hasks
  rw [has_finish h ho] at hasks
  rw [ho] at hp
  obtain ⟨⟨key, inner⟩, hm, rfl⟩ := List.mem_map.mp hp
  have hkey : inner.name = key := h.named _ hm
  refine Bool.or_eq_true_iff.mpr ?_
  rcases hasks.2 with hlisted | ⟨other, hother, hrequired⟩
  · exact .inr (List.contains_iff_mem.mpr hlisted)
  · simp only [hkey, Entries.get?_of_mem_nodup h.nodup hm] at hother
    exact .inl (Option.some.inj hother ▸ hrequired)

/-- The object has the properties of the schema, each required just if the schema lists it. -/
structure ObjectModel.Mirrors (object : ObjectModel) (schema : Schema) : Prop where
  named : ∀ property ∈ object.properties, property.name ∈ Entries.keys schema.properties
  flagged : ∀ property ∈ object.properties,
    property.required = true ↔ property.name ∈ schema.required
  covered : ∀ name ∈ Entries.keys schema.properties,
    ∃ property ∈ object.properties, property.name = name

theorem ObjectModel.mirrors_of_properties {object : ObjectModel} {schema : Schema}
    (hp : List.Forall₂ (fun (pair : String × SchemaNode) (property : Property) =>
      property.name = pair.1 ∧ property.required = schema.required.contains pair.1)
        schema.properties object.properties) : object.Mirrors schema := by
  refine ⟨fun property hm => ?_, fun property hm => ?_, fun name hkey => ?_⟩
  · obtain ⟨pair, hpair, hname, -⟩ := forall₂_of_mem_right hp hm
    exact List.mem_map.mpr ⟨pair, hpair, hname.symm⟩
  · obtain ⟨pair, -, hname, hrequired⟩ := forall₂_of_mem_right hp hm
    rw [hrequired, List.contains_iff_mem, hname]
  · obtain ⟨pair, hpair, rfl⟩ := List.mem_map.mp hkey
    obtain ⟨property, hm, hname, -⟩ := forall₂_of_mem_right hp.flip hpair
    exact ⟨property, hm, hname⟩

/-- A model is what its schema makes known beforehand. -/
structure Model.Shows (lookup : Lookup) (schema : Schema) (model : Model) : Prop where
  free : model = .freeForm ↔ lookup.Free (.build schema)
  shaped : lookup.Gives (.build schema) .shaped → ∃ object, model = .object object
  has : ∀ object, model = .object object →
    object.Coherent ∧ ∀ fact, object.Has fact ↔ lookup.Gives (.build schema) fact

/-- A model that is neither an object nor of any shape shows nothing. -/
theorem Model.shows_of_unshaped {lookup : Lookup} {schema : Schema} {model : Model}
    (hm : ∀ object, model ≠ .object object) (hf : model = .freeForm ↔ lookup.Free (.build schema))
    (hs : ¬ lookup.Gives (.build schema) .shaped) : model.Shows lookup schema :=
  ⟨hf, fun h => absurd h hs, fun object h => absurd h (hm object)⟩

end ApiAtlas
