import ApiAtlas.Proofs.Inheritance
import ApiAtlas.Proofs.PlainComponents
import Mathlib.Data.Set.Insert

namespace ApiAtlas

open Relation

namespace Lookup

/-- The name of a component among those that are unfinished, or another name for one. -/
def Pending (lookup : Lookup) (unfinished : Set String) (name : String) : Prop :=
  ∃ owner ∈ unfinished, ∃ schema, lookup.Stands name owner schema

/-- A piece of a document that is worked off within another one while some components are
unfinished. Of a base among these it is the text that is merged. -/
inductive Part (lookup : Lookup) (unfinished : Set String) : Work → Work → Prop
  | body {name : String} {node : SchemaNode} (found : lookup.find name = some node) :
    Part lookup unfinished (.component name) (.resolve node)
  | inline {node : SchemaNode} {schema : Schema} (bare : node.bare = .inline schema) :
    Part lookup unfinished (.resolve node) (.build schema)
  | object {schema : Schema}
    (form : lookup.form schema = .merged ∧ schema.isObjectCompatible = true ∨
      lookup.form schema = .object) : Part lookup unfinished (.build schema) (.merge schema)
  | items {schema : Schema} {node : SchemaNode} (form : lookup.form schema = .array)
    (listed : schema.items = some node) : Part lookup unfinished (.build schema) (.resolve node)
  | value {schema : Schema} {node : SchemaNode} (form : lookup.form schema = .map node) :
    Part lookup unfinished (.build schema) (.resolve node)
  | case {schema : Schema} {node : SchemaNode} (form : lookup.form schema = .union)
    (listed : node ∈ schema.composition) (real : node.isNullSchema = false) :
    Part lookup unfinished (.build schema) (.resolve node)
  | type {schema : Schema} {type : SchemaType} (form : lookup.form schema = .several)
    (listed : type ∈ schema.nonNullTypes) :
    Part lookup unfinished (.build schema) (.build (schema.only type))
  | branch {schema : Schema} {node : SchemaNode} (listed : node ∈ schema.allOf) :
    Part lookup unfinished (.merge schema) (.branch node)
  | member {schema : Schema} {pair : String × SchemaNode} (listed : pair ∈ schema.properties) :
    Part lookup unfinished (.merge schema) (.resolve pair.2)
  | nested {schema : Schema} (real : schema.isAnnotation = false)
    (good : schema.isObjectCompatible = true) :
    Part lookup unfinished (.branch (.inline schema)) (.merge schema)
  | base {path target owner : String} {schema : Schema}
    (named : Section.schemas.named? path = some target)
    (pending : lookup.Pending unfinished target) (written : lookup.WrittenAs target owner schema)
    (good : schema.isObjectCompatible = true) :
    Part lookup unfinished (.branch (.ref path)) (.merge schema)

/-- A property is made for an object that the node is merged into while some components are
unfinished. -/
inductive Brings (lookup : Lookup) (unfinished : Set String) : SchemaNode → String → Prop
  | own {schema inner : Schema} {name : String} {node : SchemaNode}
    (listed : (name, node) ∈ schema.properties) (bare : node.bare = .inline inner) :
    Brings lookup unfinished (.inline schema) name
  | part {schema : Schema} {branch : SchemaNode} {name : String} (mem : branch ∈ schema.allOf)
    (inner : Brings lookup unfinished branch name) : Brings lookup unfinished (.inline schema) name
  | base {path target owner name : String} {schema : Schema}
    (named : Section.schemas.named? path = some target)
    (pending : lookup.Pending unfinished target) (written : lookup.WrittenAs target owner schema)
    (inner : Brings lookup unfinished (.inline schema) name) :
    Brings lookup unfinished (.ref path) name

/-- The properties that are made for an object that some nodes are merged into. -/
def broughtBy (lookup : Lookup) (unfinished : Set String) (nodes : List SchemaNode) : Set String :=
  {name | ∃ node ∈ nodes, lookup.Brings unfinished node name}

/-- The properties among some that are made for an object that has them itself. -/
def broughtAlong (properties : List (String × SchemaNode)) : Set String :=
  {name | ∃ node inner, (name, node) ∈ properties ∧ SchemaNode.bare node = .inline inner}

/-- No property that is made for an object is defined once more by a later part. -/
structure Calm (lookup : Lookup) (unfinished : Set String) (schema : Schema) : Prop where
  keys : (Entries.keys schema.properties).Nodup
  branches : schema.allOf.Pairwise fun first second =>
    ∀ name, lookup.Brings unfinished first name → ¬ lookup.Declares second name
  own : ∀ branch ∈ schema.allOf, ∀ name, lookup.Brings unfinished branch name →
    name ∉ Entries.keys schema.properties

/-- Whatever is merged within some work while some components are unfinished, no property that is
made for it is defined once more. -/
def Undisputed (lookup : Lookup) (unfinished : Set String) (work : Work) : Prop :=
  ∀ schema, ReflTransGen (lookup.Part unfinished) work (.merge schema) →
    lookup.Calm unfinished schema

variable {lookup : Lookup} {unfinished : Set String} {work outer inner : Work} {schema : Schema}
  {node : SchemaNode} {name path : String}

/-- What is worked off within a schema by its form. -/
theorem Part.of_build (h : lookup.Part unfinished (.build schema) inner) :
    match lookup.form schema with
    | .merged | .object => inner = .merge schema
    | .array => ∃ node, schema.items = some node ∧ inner = .resolve node
    | .map node => inner = .resolve node
    | .union => ∃ node ∈ schema.composition, inner = .resolve node
    | .several => ∃ type ∈ schema.nonNullTypes, inner = .build (schema.only type)
    | .plain => False := by
  cases h with
  | object form =>
    rcases form with ⟨hm, _⟩ | ho
    · simp [hm]
    · simp [ho]
  | items form listed => simp [form, listed]
  | value form => simp [form]
  | case form listed _ => simpa [form] using listed
  | type form listed => simpa [form] using ⟨_, listed, rfl⟩

/-- Work is undisputed when it is calm itself and undisputed in its parts. -/
theorem undisputed_iff : lookup.Undisputed unfinished work ↔
    (∀ schema, work = .merge schema → lookup.Calm unfinished schema) ∧
      ∀ inner, lookup.Part unfinished work inner → lookup.Undisputed unfinished inner := by
  constructor
  · intro h
    exact ⟨fun schema he => h schema (he ▸ .refl), fun inner hp schema hm => h schema (.head hp hm)⟩
  · rintro ⟨hcalm, hparts⟩ schema hm
    rcases hm.cases_head with he | ⟨inner, hp, hrest⟩
    · exact hcalm schema he
    · exact hparts inner hp schema hrest

theorem undisputed_resolve (h : ∀ schema, node.bare = .inline schema →
    lookup.Undisputed unfinished (.build schema)) :
    lookup.Undisputed unfinished (.resolve node) := by
  refine undisputed_iff.mpr ⟨fun schema he => (nomatch he), fun inner hp => ?_⟩
  cases hp with
  | inline bare => exact h _ bare

theorem undisputed_ref :
    lookup.Undisputed unfinished (.resolve (.ref path)) :=
  undisputed_resolve fun _ bare => by simp at bare

theorem undisputed_build (h : ∀ inner, lookup.Part unfinished (.build schema) inner →
    lookup.Undisputed unfinished inner) : lookup.Undisputed unfinished (.build schema) :=
  undisputed_iff.mpr ⟨fun _ he => (nomatch he), h⟩

theorem undisputed_component (h : ∀ node, lookup.find name = some node →
    lookup.Undisputed unfinished (.resolve node)) :
    lookup.Undisputed unfinished (.component name) := by
  refine undisputed_iff.mpr ⟨fun schema he => (nomatch he), fun inner hp => ?_⟩
  cases hp with
  | body found => exact h _ found

/-- A branch in its own words is as undisputed as what is merged of it. -/
theorem undisputed_nested (h : lookup.Undisputed unfinished (.merge schema)) :
    lookup.Undisputed unfinished (.branch (.inline schema)) := by
  refine undisputed_iff.mpr ⟨fun schema he => (nomatch he), fun inner hp => ?_⟩
  cases hp with
  | nested => exact h

/-- Of a base that is finished no text is merged. -/
theorem undisputed_finished (named : Section.schemas.named? path = some name)
    (h : ¬ lookup.Pending unfinished name) :
    lookup.Undisputed unfinished (.branch (.ref path)) := by
  refine undisputed_iff.mpr ⟨fun schema he => (nomatch he), fun inner hp => ?_⟩
  cases hp with
  | base named' pending =>
    cases Option.some.inj (named.symm.trans named')
    exact absurd pending h

/-- Nor does such a base bring a property. -/
theorem finished_brings_nothing {other : String} (named : Section.schemas.named? path = some name)
    (h : ¬ lookup.Pending unfinished name) : ¬ lookup.Brings unfinished (.ref path) other := by
  intro hb
  cases hb with
  | base named' pending =>
    cases Option.some.inj (named.symm.trans named')
    exact h pending

/-- An object is as undisputed as what is merged for it. -/
theorem undisputed_object (hpeel : schema.peel? = none) (hform : lookup.form schema = .object)
    (h : lookup.Undisputed unfinished (.merge schema)) :
    lookup.Undisputed unfinished (.resolve (.inline schema)) := by
  refine undisputed_resolve fun other bare => ?_
  cases (SchemaNode.bare_inline hpeel).symm.trans bare
  refine undisputed_build fun inner hp => ?_
  have hinner := hp.of_build
  rw [hform] at hinner
  exact hinner ▸ h

/-- Without branches only the properties can dispute anything. -/
theorem undisputed_flat (hall : schema.allOf = []) (hkeys : (Entries.keys schema.properties).Nodup)
    (h : ∀ pair ∈ schema.properties, lookup.Undisputed unfinished (.resolve pair.2)) :
    lookup.Undisputed unfinished (.merge schema) := by
  refine undisputed_iff.mpr ⟨fun other he => ?_, fun inner hp => ?_⟩
  · cases he
    exact ⟨hkeys, by simp [hall], by simp [hall]⟩
  · cases hp with
    | branch listed => simp [hall] at listed
    | member listed => exact h _ listed

theorem Undisputed.part (h : lookup.Undisputed unfinished outer)
    (hp : lookup.Part unfinished outer inner) : lookup.Undisputed unfinished inner :=
  fun schema hm => h schema (.head hp hm)

theorem Undisputed.calm (h : lookup.Undisputed unfinished (.merge schema)) :
    lookup.Calm unfinished schema :=
  h schema .refl

/-- What a component with a schema of its own disputes, its schema does. -/
theorem Undisputed.own (h : lookup.Undisputed unfinished (.component name))
    (ho : lookup.Own name schema) : lookup.Undisputed unfinished (.build schema) := by
  obtain ⟨body, found, bare⟩ := ho
  exact (h.part (.body found)).part (.inline bare)

theorem Brings.declares (h : lookup.Brings unfinished node name) : lookup.Declares node name := by
  induction h with
  | own listed _ => exact .own (List.mem_map_of_mem (f := Prod.fst) listed)
  | part mem _ ih => exact .part mem ih
  | base named _ written _ ih => exact (written.finds named).mp ih

@[simp] theorem broughtBy_nil : lookup.broughtBy unfinished [] = ∅ := by simp [broughtBy]

theorem broughtBy_concat (nodes : List SchemaNode) :
    lookup.broughtBy unfinished nodes ∪ {name | lookup.Brings unfinished node name} =
      lookup.broughtBy unfinished (nodes ++ [node]) := by
  ext name
  simp [broughtBy, or_and_right, exists_or]

@[simp] theorem broughtAlong_nil : broughtAlong [] = ∅ := by simp [broughtAlong]

theorem broughtAlong_concat (properties : List (String × SchemaNode)) :
    broughtAlong properties ∪ {other | other = name ∧ ∃ inner, node.bare = .inline inner} =
      broughtAlong (properties ++ [(name, node)]) := by
  ext other
  simp only [broughtAlong, Set.mem_union, Set.mem_ofPred_eq, List.mem_append, List.mem_singleton,
    Prod.mk.injEq]
  constructor
  · rintro (⟨old, inner, hm, hinner⟩ | ⟨rfl, inner, hinner⟩)
    · exact ⟨old, inner, .inl hm, hinner⟩
    · exact ⟨node, inner, .inr ⟨rfl, rfl⟩, hinner⟩
  · rintro ⟨old, inner, hm | ⟨rfl, rfl⟩, hinner⟩
    · exact .inl ⟨old, inner, hm, hinner⟩
    · exact .inr ⟨rfl, inner, hinner⟩

end Lookup

end ApiAtlas
