import ApiAtlas.Proofs.GoodComponents
import ApiAtlas.Proofs.ResolutionDepth

namespace ApiAtlas

namespace Lookup

/-- A name that schemas have is found for a node. -/
inductive Finds (lookup : Lookup) (reads : Schema → String → Prop) : SchemaNode → String → Prop
  | own {schema : Schema} {name : String} (read : reads schema name) :
    Finds lookup reads (.inline schema) name
  | part {schema : Schema} {branch : SchemaNode} {name : String} (mem : branch ∈ schema.allOf)
    (inner : Finds lookup reads branch name) : Finds lookup reads (.inline schema) name
  | wrapped {schema : Schema} {peeled : Peeled} {name : String} (peels : schema.peel? = some peeled)
    (inner : Finds lookup reads peeled.node name) : Finds lookup reads (.inline schema) name
  | base {path target name : String} {body : SchemaNode}
    (named : Section.schemas.named? path = some target) (found : lookup.find target = some body)
    (inner : Finds lookup reads body name) : Finds lookup reads (.ref path) name

/-- A property of the name is declared. -/
def Declares (lookup : Lookup) : SchemaNode → String → Prop :=
  lookup.Finds fun schema name => name ∈ Entries.keys schema.properties

/-- The name is listed as required. -/
def Lists (lookup : Lookup) : SchemaNode → String → Prop :=
  lookup.Finds fun schema name => name ∈ schema.required

/-- The name is listed where no list is lost. A schema that is resolved for itself loses its own
list if it is a wrapper; an object that is merged loses the list of a branch that has nothing else,
and of a component the names that the component does not declare. -/
inductive Keeps (lookup : Lookup) : (merging : Bool) → SchemaNode → String → Prop
  | own {merging : Bool} {schema : Schema} {name : String}
    (kept : merging = true ∨ schema.peel? = none) (listed : name ∈ schema.required) :
    Keeps lookup merging (.inline schema) name
  | part {merging : Bool} {schema other : Schema} {name : String}
    (kept : merging = true ∨ schema.peel? = none) (mem : .inline other ∈ schema.allOf)
    (real : other.isAnnotation = false) (inner : Keeps lookup true (.inline other) name) :
    Keeps lookup merging (.inline schema) name
  | extended {merging : Bool} {schema : Schema} {path name : String}
    (kept : merging = true ∨ schema.peel? = none) (mem : .ref path ∈ schema.allOf)
    (declared : lookup.Declares (.ref path) name) (inner : Keeps lookup false (.ref path) name) :
    Keeps lookup merging (.inline schema) name
  | wrapped {schema : Schema} {peeled : Peeled} {name : String} (peels : schema.peel? = some peeled)
    (inner : Keeps lookup false peeled.node name) : Keeps lookup false (.inline schema) name
  | base {path target name : String} {body : SchemaNode}
    (named : Section.schemas.named? path = some target) (found : lookup.find target = some body)
    (inner : Keeps lookup false body name) : Keeps lookup false (.ref path) name

variable {lookup : Lookup} {reads : Schema → String → Prop} {schema other : Schema}
  {node body branch : SchemaNode} {name path target owner : String} {peeled : Peeled}

theorem finds_ref (named : Section.schemas.named? path = some target)
    (found : lookup.find target = some body) :
    lookup.Finds reads (.ref path) name ↔ lookup.Finds reads body name := by
  refine ⟨fun h => ?_, .base named found⟩
  cases h with
  | base named' found' inner =>
    cases Option.some.inj (named.symm.trans named')
    cases Option.some.inj (found.symm.trans found')
    exact inner

theorem keeps_ref (named : Section.schemas.named? path = some target)
    (found : lookup.find target = some body) :
    lookup.Keeps false (.ref path) name ↔ lookup.Keeps false body name := by
  refine ⟨fun h => ?_, .base named found⟩
  cases h with
  | base named' found' inner =>
    cases Option.some.inj (named.symm.trans named')
    cases Option.some.inj (found.symm.trans found')
    exact inner

theorem annotation_peels_nothing (h : schema.isAnnotation = true) : schema.peel? = none := by
  simp only [SchemaOf.isAnnotation, Bool.and_eq_true, List.isEmpty_iff] at h
  obtain ⟨⟨⟨⟨-, hall⟩, hcomposition⟩, -⟩, -⟩ := h
  cases hp : schema.peel? with
  | none => rfl
  | some peeled =>
    cases (SchemaOf.wraps_of_peel? hp).2 with
    | sole _ mem => simp [hall] at mem
    | null _ mem => simp [hcomposition] at mem

/-- What an annotation has is its own. -/
theorem annotation_finds (h : schema.isAnnotation = true) :
    lookup.Finds reads (.inline schema) name ↔ reads schema name := by
  refine ⟨fun hf => ?_, .own⟩
  have hall : schema.allOf = [] := by
    simp only [SchemaOf.isAnnotation, Bool.and_eq_true, List.isEmpty_iff] at h
    exact h.1.1.1.2
  cases hf with
  | own read => exact read
  | part mem => simp [hall] at mem
  | wrapped peels => simp [annotation_peels_nothing h] at peels

theorem annotation_declares_nothing (h : schema.isAnnotation = true) :
    ¬ lookup.Declares (.inline schema) name := by
  intro hd
  have hkey := (annotation_finds h).mp hd
  simp only [SchemaOf.isAnnotation, Bool.and_eq_true, List.isEmpty_iff] at h
  simp [Entries.keys, h.1.1.1.1.1.1.2] at hkey

/-- A wrapper declares what it wraps. -/
theorem declares_wrapper (peels : schema.peel? = some peeled) :
    lookup.Declares (.inline schema) name ↔ lookup.Declares peeled.node name := by
  refine ⟨fun h => ?_, .wrapped peels⟩
  obtain ⟨hproperties, hwraps⟩ := SchemaOf.wraps_of_peel? peels
  cases h with
  | own read => simp [Entries.keys, hproperties] at read
  | part mem inner =>
    cases hwraps with
    | sole _ _ others =>
      rcases others _ mem with hplain | rfl
      · obtain ⟨plain, rfl, ha⟩ := SchemaNode.of_isAnnotation hplain
        exact absurd inner (annotation_declares_nothing ha)
      · exact inner
    | null _ _ _ allOf => simp [allOf] at mem
  | wrapped peels' inner =>
    cases peels.symm.trans peels'
    exact inner

theorem keeps_of_wrapper (peels : schema.peel? = some peeled)
    (h : lookup.Keeps false (.inline schema) name) : lookup.Keeps false peeled.node name := by
  cases h with
  | own kept | part kept | extended kept => simp [peels] at kept
  | wrapped peels' inner =>
    cases peels.symm.trans peels'
    exact inner

theorem finds_of_bare (h : lookup.Finds reads node.bare name) : lookup.Finds reads node name := by
  induction node using SchemaNode.peel_induction with
  | ref path =>
    rw [SchemaNode.bare_ref] at h
    exact h
  | bare schema peels =>
    rw [SchemaNode.bare_inline peels] at h
    exact h
  | wrapper schema peeled peels ih =>
    rw [SchemaNode.bare_wrapper peels] at h
    exact .wrapped peels (ih h)

theorem declares_bare : lookup.Declares node.bare name ↔ lookup.Declares node name := by
  induction node using SchemaNode.peel_induction with
  | ref path => rw [SchemaNode.bare_ref]
  | bare schema peels => rw [SchemaNode.bare_inline peels]
  | wrapper schema peeled peels ih => rw [SchemaNode.bare_wrapper peels, ih, declares_wrapper peels]

theorem keeps_bare (h : lookup.Keeps false node name) : lookup.Keeps false node.bare name := by
  induction node using SchemaNode.peel_induction with
  | ref path => rwa [SchemaNode.bare_ref]
  | bare schema peels => rwa [SchemaNode.bare_inline peels]
  | wrapper schema peeled peels ih =>
    rw [SchemaNode.bare_wrapper peels]
    exact ih (keeps_of_wrapper peels h)

/-- What a component stands for has what a reference to the component has. -/
theorem Stands.finds (h : lookup.Stands target owner schema)
    (named : Section.schemas.named? path = some target)
    (hf : lookup.Finds reads (.inline schema) name) : lookup.Finds reads (.ref path) name := by
  induction h generalizing path with
  | own owns =>
    obtain ⟨body, found, bare⟩ := owns
    exact .base named found (finds_of_bare (bare ▸ hf))
  | link step _ ih =>
    obtain ⟨body, next, found, bare, named'⟩ := step
    exact .base named found (finds_of_bare (bare ▸ ih named' hf))

theorem Stands.declares (h : lookup.Stands target owner schema)
    (named : Section.schemas.named? path = some target) :
    lookup.Declares (.inline schema) name ↔ lookup.Declares (.ref path) name := by
  induction h generalizing path with
  | own owns =>
    obtain ⟨body, found, bare⟩ := owns
    rw [← bare, declares_bare]
    exact (finds_ref named found).symm
  | link step _ ih =>
    obtain ⟨body, next, found, bare, named'⟩ := step
    rw [ih named', ← bare, declares_bare]
    exact (finds_ref named found).symm

theorem Stands.keeps (h : lookup.Stands target owner schema)
    (named : Section.schemas.named? path = some target) (hk : lookup.Keeps false (.ref path) name) :
    lookup.Keeps false (.inline schema) name := by
  induction h generalizing path with
  | own owns =>
    obtain ⟨body, found, bare⟩ := owns
    have hbody := (keeps_ref named found).mp hk
    exact bare ▸ keeps_bare hbody
  | link step _ ih =>
    obtain ⟨body, next, found, bare, named'⟩ := step
    have hbody := (keeps_ref named found).mp hk
    exact ih named' (bare ▸ keeps_bare hbody)

/-- So has the text that is found behind a name by following references only. -/
theorem WrittenAs.finds (h : lookup.WrittenAs target owner schema)
    (named : Section.schemas.named? path = some target) :
    lookup.Finds reads (.inline schema) name ↔ lookup.Finds reads (.ref path) name := by
  induction h generalizing path with
  | here found => exact (finds_ref named found).symm
  | next found named' _ ih => exact (ih named').trans (finds_ref named found).symm

theorem WrittenAs.keeps (h : lookup.WrittenAs target owner schema)
    (named : Section.schemas.named? path = some target) :
    lookup.Keeps false (.inline schema) name ↔ lookup.Keeps false (.ref path) name := by
  induction h generalizing path with
  | here found => exact (keeps_ref named found).symm
  | next found named' _ ih => exact (ih named').trans (keeps_ref named found).symm

/-- What can be part of an object wraps nothing but a branch of its own. -/
theorem mem_of_wrapper (hc : schema.isObjectCompatible = true) (peels : schema.peel? = some peeled) :
    peeled.node ∈ schema.allOf := by
  have hcomposition : schema.composition = [] := by
    simp only [SchemaOf.isObjectCompatible, Bool.and_eq_true, List.isEmpty_iff] at hc
    exact hc.1.1.1.1.2
  cases (SchemaOf.wraps_of_peel? peels).2 with
  | sole _ mem => exact List.fst_mem_of_mem_zipIdx mem
  | null _ mem => simp [hcomposition] at mem

theorem finds_compatible (h : schema.isObjectCompatible = true ∨ schema.peel? = none) :
    lookup.Finds reads (.inline schema) name ↔
      reads schema name ∨ ∃ branch ∈ schema.allOf, lookup.Finds reads branch name := by
  constructor
  · intro hf
    cases hf with
    | own read => exact .inl read
    | part mem inner => exact .inr ⟨_, mem, inner⟩
    | wrapped peels inner =>
      rcases h with hcompatible | hnone
      · exact .inr ⟨_, mem_of_wrapper hcompatible peels, inner⟩
      · rw [hnone] at peels
        cases peels
  · rintro (read | ⟨branch, mem, inner⟩)
    · exact .own read
    · exact .part mem inner

theorem declares_compatible (h : schema.isObjectCompatible = true ∨ schema.peel? = none) :
    lookup.Declares (.inline schema) name ↔
      name ∈ Entries.keys schema.properties ∨ ∃ branch ∈ schema.allOf, lookup.Declares branch name :=
  finds_compatible h

theorem lists_compatible (h : schema.isObjectCompatible = true ∨ schema.peel? = none) :
    lookup.Lists (.inline schema) name ↔
      name ∈ schema.required ∨ ∃ branch ∈ schema.allOf, lookup.Lists branch name :=
  finds_compatible h

end Lookup

end ApiAtlas
