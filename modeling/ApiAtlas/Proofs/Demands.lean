import ApiAtlas.Proofs.ArenaGrowth

namespace ApiAtlas

/-- The components of a document by name, with the extensions that open an enum. -/
structure Lookup where
  find : String → Option SchemaNode
  extensions : List String

def Registry.lookup (registry : Registry) : Lookup :=
  ⟨Entries.get? registry.schemas, registry.openExtensions⟩

/-- A piece of a document that is resolved, built or merged. -/
inductive Work
  | component (name : String)
  | resolve (node : SchemaNode)
  | build (schema : Schema)
  | merge (schema : Schema)
  /-- A branch of `allOf`. -/
  | branch (node : SchemaNode)

/-- The work only adds to an object in the making. -/
def Work.adds : Work → Bool
  | .merge _ => true
  | .branch _ => true
  | _ => false

/-- What a piece of work asks for. -/
inductive Demand
  /-- A component that a reference leads to. -/
  | refer (path : String)
  /-- The properties of a component. -/
  | extend (path : String)
  /-- Something that cannot be had. -/
  | never

/-- What is known of an object before it is built. -/
inductive Fact
  /-- It has a property. -/
  | declares (name : String)
  /-- A property is required if it has it. -/
  | asks (name : String)
  /-- It is an object. -/
  | shaped

/-- The schema with one of its types alone. -/
def SchemaOf.only (type : SchemaType) (schema : Schema) : Schema :=
  { schema with types := some (.single type), nullable := none }

/-- What a schema adds to an object that it is merged into, beside its branches. -/
def SchemaOf.Writes (schema : Schema) : Fact → Prop
  | .declares name => name ∈ Entries.keys schema.properties
  | .asks name => name ∈ schema.required
  | .shaped => Registry.declaresObject schema = true

/-- What an object has that is built of the properties of a schema alone. -/
def SchemaOf.Owns (schema : Schema) : Fact → Prop
  | .declares name => name ∈ Entries.keys schema.properties
  | .asks name => name ∈ Entries.keys schema.properties ∧ name ∈ schema.required
  | .shaped => True

theorem SchemaOf.writes_iff {schema : Schema} {fact : Fact} : schema.Writes fact ↔
    Registry.declaresObject schema = true ∧ fact = .shaped ∨
      (∃ pair ∈ schema.properties, fact = .declares pair.1) ∨
        ∃ name ∈ schema.required, fact = .asks name := by
  cases fact with
  | declares name =>
    change name ∈ Entries.keys schema.properties ↔ _
    simp [Entries.keys]
  | asks name =>
    change name ∈ schema.required ↔ _
    simp
  | shaped =>
    change Registry.declaresObject schema = true ↔ _
    simp

namespace Lookup

def form (lookup : Lookup) (schema : Schema) : Form :=
  (⟨[], lookup.extensions⟩ : Registry).form schema

def plainModel (lookup : Lookup) (schema : Schema) (pos : Position) : Except ResolveError Model :=
  (⟨[], lookup.extensions⟩ : Registry).plainModel schema pos

/-- What work asks for. -/
inductive Needs (lookup : Lookup) : Work → Demand → Prop
  | missing {name : String} (found : lookup.find name = none) :
    Needs lookup (.component name) .never
  | body {name : String} {node : SchemaNode} {demand : Demand} (found : lookup.find name = some node)
    (inner : Needs lookup (.resolve node) demand) : Needs lookup (.component name) demand
  | refer {node : SchemaNode} {path : String} (bare : node.bare = .ref path) :
    Needs lookup (.resolve node) (.refer path)
  | inline {node : SchemaNode} {schema : Schema} {demand : Demand} (bare : node.bare = .inline schema)
    (inner : Needs lookup (.build schema) demand) : Needs lookup (.resolve node) demand
  | incompatible {schema : Schema} (form : lookup.form schema = .merged)
    (bad : schema.isObjectCompatible = false) : Needs lookup (.build schema) .never
  | merged {schema : Schema} {demand : Demand} (form : lookup.form schema = .merged)
    (inner : Needs lookup (.merge schema) demand) : Needs lookup (.build schema) demand
  | property {schema : Schema} {pair : String × SchemaNode} {demand : Demand}
    (form : lookup.form schema = .object) (listed : pair ∈ schema.properties)
    (inner : Needs lookup (.resolve pair.2) demand) : Needs lookup (.build schema) demand
  | items {schema : Schema} {node : SchemaNode} {demand : Demand}
    (form : lookup.form schema = .array) (listed : schema.items = some node)
    (inner : Needs lookup (.resolve node) demand) : Needs lookup (.build schema) demand
  | value {schema : Schema} {node : SchemaNode} {demand : Demand}
    (form : lookup.form schema = .map node)
    (inner : Needs lookup (.resolve node) demand) : Needs lookup (.build schema) demand
  | case {schema : Schema} {node : SchemaNode} {demand : Demand}
    (form : lookup.form schema = .union) (listed : node ∈ schema.composition)
    (real : node.isNullSchema = false)
    (inner : Needs lookup (.resolve node) demand) : Needs lookup (.build schema) demand
  | type {schema : Schema} {type : SchemaType} {demand : Demand}
    (form : lookup.form schema = .several) (listed : type ∈ schema.nonNullTypes)
    (inner : Needs lookup (.build (schema.only type)) demand) : Needs lookup (.build schema) demand
  | plain {schema : Schema} {pos : Position} {error : ResolveError}
    (form : lookup.form schema = .plain) (bad : lookup.plainModel schema pos = .error error) :
    Needs lookup (.build schema) .never
  | part {schema : Schema} {node : SchemaNode} {demand : Demand} (listed : node ∈ schema.allOf)
    (inner : Needs lookup (.branch node) demand) : Needs lookup (.merge schema) demand
  | member {schema : Schema} {pair : String × SchemaNode} {demand : Demand}
    (listed : pair ∈ schema.properties) (inner : Needs lookup (.resolve pair.2) demand) :
    Needs lookup (.merge schema) demand
  | base {path : String} : Needs lookup (.branch (.ref path)) (.extend path)
  | stray {schema : Schema} (real : schema.isAnnotation = false)
    (bad : schema.isObjectCompatible = false) : Needs lookup (.branch (.inline schema)) .never
  | nested {schema : Schema} {demand : Demand} (real : schema.isAnnotation = false)
    (good : schema.isObjectCompatible = true) (inner : Needs lookup (.merge schema) demand) :
    Needs lookup (.branch (.inline schema)) demand

/-- What an object has that work comes to. -/
inductive Gives (lookup : Lookup) : Work → Fact → Prop
  | body {name : String} {node : SchemaNode} {fact : Fact} (found : lookup.find name = some node)
    (inner : Gives lookup (.resolve node) fact) : Gives lookup (.component name) fact
  | link {node : SchemaNode} {path name : String} {fact : Fact} (bare : node.bare = .ref path)
    (named : Section.schemas.named? path = some name)
    (inner : Gives lookup (.component name) fact) : Gives lookup (.resolve node) fact
  | inline {node : SchemaNode} {schema : Schema} {fact : Fact} (bare : node.bare = .inline schema)
    (inner : Gives lookup (.build schema) fact) : Gives lookup (.resolve node) fact
  | own {schema : Schema} {fact : Fact} (form : lookup.form schema = .object)
    (owns : schema.Owns fact) : Gives lookup (.build schema) fact
  | merged {schema : Schema} {fact : Fact} (form : lookup.form schema = .merged)
    (inner : Gives lookup (.merge schema) fact)
    (declared : ∀ name, fact = .asks name → Gives lookup (.merge schema) (.declares name)) :
    Gives lookup (.build schema) fact
  | part {schema : Schema} {node : SchemaNode} {fact : Fact} (listed : node ∈ schema.allOf)
    (inner : Gives lookup (.branch node) fact) : Gives lookup (.merge schema) fact
  | written {schema : Schema} {fact : Fact} (writes : schema.Writes fact) :
    Gives lookup (.merge schema) fact
  | base {path name : String} {fact : Fact} (named : Section.schemas.named? path = some name)
    (inner : Gives lookup (.component name) fact) : Gives lookup (.branch (.ref path)) fact
  | nested {schema : Schema} {fact : Fact} (real : schema.isAnnotation = false)
    (inner : Gives lookup (.merge schema) fact) : Gives lookup (.branch (.inline schema)) fact

/-- Work comes to a value of any shape. -/
inductive Free (lookup : Lookup) : Work → Prop
  | body {name : String} {node : SchemaNode} (found : lookup.find name = some node)
    (inner : Free lookup (.resolve node)) : Free lookup (.component name)
  | link {node : SchemaNode} {path name : String} (bare : node.bare = .ref path)
    (named : Section.schemas.named? path = some name)
    (inner : Free lookup (.component name)) : Free lookup (.resolve node)
  | inline {node : SchemaNode} {schema : Schema} (bare : node.bare = .inline schema)
    (inner : Free lookup (.build schema)) : Free lookup (.resolve node)
  | merged {schema : Schema} (form : lookup.form schema = .merged)
    (unshaped : ¬ lookup.Gives (.merge schema) .shaped) : Free lookup (.build schema)
  | union {schema : Schema} (form : lookup.form schema = .union)
    (empty : ∀ node ∈ schema.composition, node.isNullSchema = true) : Free lookup (.build schema)
  | plain {schema : Schema} {pos : Position} (form : lookup.form schema = .plain)
    (model : lookup.plainModel schema pos = .ok .freeForm) : Free lookup (.build schema)

variable {lookup : Lookup} {work : Work} {node : SchemaNode} {schema : Schema} {demand : Demand}
  {fact : Fact} {name path : String}

theorem needs_component (found : lookup.find name = some node) :
    lookup.Needs (.component name) demand ↔ lookup.Needs (.resolve node) demand := by
  refine ⟨fun h => ?_, .body found⟩
  cases h with
  | missing missing =>
    rw [found] at missing
    cases missing
  | body found' inner =>
    cases Option.some.inj (found.symm.trans found')
    exact inner

theorem needs_resolve_ref (bare : node.bare = .ref path) :
    lookup.Needs (.resolve node) demand ↔ demand = .refer path := by
  refine ⟨fun h => ?_, fun h => h ▸ .refer bare⟩
  cases h with
  | refer bare' =>
    cases bare.symm.trans bare'
    rfl
  | inline bare' => cases bare.symm.trans bare'

theorem needs_resolve_inline (bare : node.bare = .inline schema) :
    lookup.Needs (.resolve node) demand ↔ lookup.Needs (.build schema) demand := by
  refine ⟨fun h => ?_, .inline bare⟩
  cases h with
  | refer bare' => cases bare.symm.trans bare'
  | inline bare' inner =>
    cases bare.symm.trans bare'
    exact inner

theorem gives_component (found : lookup.find name = some node) :
    lookup.Gives (.component name) fact ↔ lookup.Gives (.resolve node) fact := by
  refine ⟨fun h => ?_, .body found⟩
  cases h with
  | body found' inner =>
    cases Option.some.inj (found.symm.trans found')
    exact inner

theorem gives_resolve_ref (bare : node.bare = .ref path)
    (named : Section.schemas.named? path = some name) :
    lookup.Gives (.resolve node) fact ↔ lookup.Gives (.component name) fact := by
  refine ⟨fun h => ?_, .link bare named⟩
  cases h with
  | link bare' named' inner =>
    cases bare.symm.trans bare'
    cases Option.some.inj (named.symm.trans named')
    exact inner
  | inline bare' => cases bare.symm.trans bare'

theorem gives_resolve_inline (bare : node.bare = .inline schema) :
    lookup.Gives (.resolve node) fact ↔ lookup.Gives (.build schema) fact := by
  refine ⟨fun h => ?_, .inline bare⟩
  cases h with
  | link bare' => cases bare.symm.trans bare'
  | inline bare' inner =>
    cases bare.symm.trans bare'
    exact inner

theorem free_component (found : lookup.find name = some node) :
    lookup.Free (.component name) ↔ lookup.Free (.resolve node) := by
  refine ⟨fun h => ?_, .body found⟩
  cases h with
  | body found' inner =>
    cases Option.some.inj (found.symm.trans found')
    exact inner

theorem free_resolve_ref (bare : node.bare = .ref path)
    (named : Section.schemas.named? path = some name) :
    lookup.Free (.resolve node) ↔ lookup.Free (.component name) := by
  refine ⟨fun h => ?_, .link bare named⟩
  cases h with
  | link bare' named' inner =>
    cases bare.symm.trans bare'
    cases Option.some.inj (named.symm.trans named')
    exact inner
  | inline bare' => cases bare.symm.trans bare'

theorem free_resolve_inline (bare : node.bare = .inline schema) :
    lookup.Free (.resolve node) ↔ lookup.Free (.build schema) := by
  refine ⟨fun h => ?_, .inline bare⟩
  cases h with
  | link bare' => cases bare.symm.trans bare'
  | inline bare' inner =>
    cases bare.symm.trans bare'
    exact inner

theorem needs_branch_ref : lookup.Needs (.branch (.ref path)) demand ↔ demand = .extend path := by
  refine ⟨fun h => ?_, fun h => h ▸ .base⟩
  cases h with
  | base => rfl

theorem gives_branch_ref (named : Section.schemas.named? path = some name) :
    lookup.Gives (.branch (.ref path)) fact ↔ lookup.Gives (.component name) fact := by
  refine ⟨fun h => ?_, .base named⟩
  cases h with
  | base named' inner =>
    cases Option.some.inj (named.symm.trans named')
    exact inner

theorem needs_branch_inline (real : schema.isAnnotation = false)
    (good : schema.isObjectCompatible = true) :
    lookup.Needs (.branch (.inline schema)) demand ↔ lookup.Needs (.merge schema) demand := by
  refine ⟨fun h => ?_, .nested real good⟩
  cases h with
  | stray _ bad => cases good.symm.trans bad
  | nested _ _ inner => exact inner

theorem gives_branch_inline (real : schema.isAnnotation = false) :
    lookup.Gives (.branch (.inline schema)) fact ↔ lookup.Gives (.merge schema) fact := by
  refine ⟨fun h => ?_, .nested real⟩
  cases h with
  | nested _ inner => exact inner

theorem needs_merge : lookup.Needs (.merge schema) demand ↔
    (∃ node ∈ schema.allOf, lookup.Needs (.branch node) demand) ∨
      ∃ pair ∈ schema.properties, lookup.Needs (.resolve pair.2) demand := by
  constructor
  · intro h
    cases h with
    | part listed inner => exact .inl ⟨_, listed, inner⟩
    | member listed inner => exact .inr ⟨_, listed, inner⟩
  · rintro (⟨node, listed, inner⟩ | ⟨pair, listed, inner⟩)
    · exact .part listed inner
    · exact .member listed inner

theorem gives_merge : lookup.Gives (.merge schema) fact ↔
    (∃ node ∈ schema.allOf, lookup.Gives (.branch node) fact) ∨ schema.Writes fact := by
  constructor
  · intro h
    cases h with
    | part listed inner => exact .inl ⟨_, listed, inner⟩
    | written writes => exact .inr writes
  · rintro (⟨node, listed, inner⟩ | writes)
    · exact .part listed inner
    · exact .written writes

/-- What building a schema of a form asks for. -/
def FormNeeds (lookup : Lookup) (schema : Schema) (demand : Demand) : Form → Prop
  | .merged => schema.isObjectCompatible = false ∧ demand = .never ∨
      lookup.Needs (.merge schema) demand
  | .object => ∃ pair ∈ schema.properties, lookup.Needs (.resolve pair.2) demand
  | .array => ∃ node, schema.items = some node ∧ lookup.Needs (.resolve node) demand
  | .map node => lookup.Needs (.resolve node) demand
  | .union => ∃ node ∈ schema.composition, node.isNullSchema = false ∧
      lookup.Needs (.resolve node) demand
  | .several => ∃ type ∈ schema.nonNullTypes, lookup.Needs (.build (schema.only type)) demand
  | .plain => demand = .never ∧ ∃ pos error, lookup.plainModel schema pos = .error error

theorem needs_build : lookup.Needs (.build schema) demand ↔
    lookup.FormNeeds schema demand (lookup.form schema) := by
  constructor
  · intro h
    cases h with
    | incompatible form bad => exact form ▸ .inl ⟨bad, rfl⟩
    | merged form inner => exact form ▸ .inr inner
    | property form listed inner => exact form ▸ ⟨_, listed, inner⟩
    | items form listed inner => exact form ▸ ⟨_, listed, inner⟩
    | value form inner => exact form ▸ inner
    | case form listed real inner => exact form ▸ ⟨_, listed, real, inner⟩
    | type form listed inner => exact form ▸ ⟨_, listed, inner⟩
    | plain form bad => exact form ▸ ⟨rfl, _, _, bad⟩
  · intro h
    cases form : lookup.form schema with
    | merged =>
      rw [form] at h
      rcases h with ⟨bad, rfl⟩ | inner
      · exact .incompatible form bad
      · exact .merged form inner
    | object =>
      rw [form] at h
      obtain ⟨pair, listed, inner⟩ := h
      exact .property form listed inner
    | array =>
      rw [form] at h
      obtain ⟨node, listed, inner⟩ := h
      exact .items form listed inner
    | map node =>
      rw [form] at h
      exact .value form h
    | union =>
      rw [form] at h
      obtain ⟨node, listed, real, inner⟩ := h
      exact .case form listed real inner
    | several =>
      rw [form] at h
      obtain ⟨type, listed, inner⟩ := h
      exact .type form listed inner
    | plain =>
      rw [form] at h
      obtain ⟨rfl, pos, error, bad⟩ := h
      exact .plain form bad

/-- What an object has that is built of a schema of a form. -/
def FormGives (lookup : Lookup) (schema : Schema) (fact : Fact) : Form → Prop
  | .object => schema.Owns fact
  | .merged => lookup.Gives (.merge schema) fact ∧
      ∀ name, fact = .asks name → lookup.Gives (.merge schema) (.declares name)
  | _ => False

theorem gives_build : lookup.Gives (.build schema) fact ↔
    lookup.FormGives schema fact (lookup.form schema) := by
  constructor
  · intro h
    cases h with
    | own form owns => exact form ▸ owns
    | merged form inner declared => exact form ▸ ⟨inner, declared⟩
  · intro h
    cases form : lookup.form schema with
    | object => exact .own form (form ▸ h : lookup.FormGives schema fact .object)
    | merged =>
      rw [form] at h
      exact .merged form h.1 h.2
    | array => exact (form ▸ h : lookup.FormGives schema fact .array).elim
    | map node => exact (form ▸ h : lookup.FormGives schema fact (.map node)).elim
    | union => exact (form ▸ h : lookup.FormGives schema fact .union).elim
    | several => exact (form ▸ h : lookup.FormGives schema fact .several).elim
    | plain => exact (form ▸ h : lookup.FormGives schema fact .plain).elim

/-- When a value of any shape is built of a schema of a form. -/
def FormFree (lookup : Lookup) (schema : Schema) : Form → Prop
  | .merged => ¬ lookup.Gives (.merge schema) .shaped
  | .union => ∀ node ∈ schema.composition, node.isNullSchema = true
  | .plain => ∃ pos, lookup.plainModel schema pos = .ok .freeForm
  | _ => False

theorem free_build : lookup.Free (.build schema) ↔
    lookup.FormFree schema (lookup.form schema) := by
  constructor
  · intro h
    cases h with
    | merged form unshaped => exact form ▸ unshaped
    | union form empty => exact form ▸ empty
    | plain form model => exact form ▸ ⟨_, model⟩
  · intro h
    cases form : lookup.form schema with
    | merged => exact .merged form (form ▸ h : lookup.FormFree schema .merged)
    | union => exact .union form (form ▸ h : lookup.FormFree schema .union)
    | plain =>
      rw [form] at h
      obtain ⟨pos, model⟩ := h
      exact .plain form model
    | object => exact (form ▸ h : lookup.FormFree schema .object).elim
    | array => exact (form ▸ h : lookup.FormFree schema .array).elim
    | map node => exact (form ▸ h : lookup.FormFree schema (.map node)).elim
    | several => exact (form ▸ h : lookup.FormFree schema .several).elim

/-- What has a property is an object. -/
theorem Gives.shaped_of_declares (h : lookup.Gives work fact) :
    ∀ name, fact = .declares name → lookup.Gives work .shaped := by
  induction h with
  | body found _ ih => exact fun name he => .body found (ih name he)
  | link bare named _ ih => exact fun name he => .link bare named (ih name he)
  | inline bare _ ih => exact fun name he => .inline bare (ih name he)
  | own form _ => exact fun _ _ => .own form trivial
  | merged form _ _ ih => exact fun name he => .merged form (ih name he) nofun
  | part listed _ ih => exact fun name he => .part listed (ih name he)
  | written writes =>
    rintro name rfl
    refine .written ?_
    have hne := List.ne_nil_of_mem (List.mem_map.mp writes).choose_spec.1
    simp [SchemaOf.Writes, Registry.declaresObject, hne]
  | base named _ ih => exact fun name he => .base named (ih name he)
  | nested real _ ih => exact fun name he => .nested real (ih name he)

/-- What is built has each property that it requires. -/
theorem Gives.declares_of_asks (h : lookup.Gives work fact) :
    ∀ name, fact = .asks name → work.adds = false → lookup.Gives work (.declares name) := by
  induction h with
  | body found _ ih => exact fun name he _ => .body found (ih name he rfl)
  | link bare named _ ih => exact fun name he _ => .link bare named (ih name he rfl)
  | inline bare _ ih => exact fun name he _ => .inline bare (ih name he rfl)
  | own form owns =>
    rintro name rfl _
    exact .own form owns.1
  | merged form _ declared => exact fun name he _ => .merged form (declared name he) nofun
  | part => exact fun _ _ => nofun
  | written => exact fun _ _ => nofun
  | base => exact fun _ _ => nofun
  | nested => exact fun _ _ => nofun

theorem Gives.shaped (h : lookup.Gives work fact) (hw : work.adds = false) :
    lookup.Gives work .shaped := by
  cases fact with
  | declares name => exact h.shaped_of_declares name rfl
  | asks name => exact (h.declares_of_asks name rfl hw).shaped_of_declares name rfl
  | shaped => exact h

/-- What is of any shape is not an object. -/
theorem Free.not_shaped (h : lookup.Free work) : ¬ lookup.Gives work .shaped := by
  induction h with
  | body found _ ih => rwa [gives_component found]
  | link bare named _ ih => rwa [gives_resolve_ref bare named]
  | inline bare _ ih => rwa [gives_resolve_inline bare]
  | merged form unshaped =>
    rw [gives_build, form]
    exact fun hg => unshaped hg.1
  | union form =>
    rw [gives_build, form]
    exact id
  | plain form =>
    rw [gives_build, form]
    exact id

end Lookup

end ApiAtlas
