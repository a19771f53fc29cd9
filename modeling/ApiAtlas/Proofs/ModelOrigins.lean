import ApiAtlas.Proofs.RouteStandards

namespace ApiAtlas

open Resolving

namespace Surroundings

/-- The node stands in a document: it is the body of a component, an operation asks for it, or it is
below a schema that stands in the document. -/
inductive Writes (around : Surroundings) (endpoints : List Endpoint) : SchemaNode → Prop
  | component {name : String} {node : SchemaNode}
    (found : Entries.get? around.registry.schemas name = some node) : Writes around endpoints node
  | asked {endpoint : Endpoint} {node : SchemaNode} (mem : endpoint ∈ endpoints)
    (asks : around.Asks endpoint node) : Writes around endpoints node
  | property {schema : Schema} {pair : String × SchemaNode}
    (outer : Writes around endpoints (.inline schema)) (mem : pair ∈ schema.properties) :
    Writes around endpoints pair.2
  | branch {schema : Schema} {node : SchemaNode}
    (outer : Writes around endpoints (.inline schema)) (mem : node ∈ schema.allOf) :
    Writes around endpoints node
  | case {schema : Schema} {node : SchemaNode}
    (outer : Writes around endpoints (.inline schema)) (mem : node ∈ schema.composition) :
    Writes around endpoints node
  | items {schema : Schema} {node : SchemaNode}
    (outer : Writes around endpoints (.inline schema)) (items : schema.items = some node) :
    Writes around endpoints node
  | value {schema : Schema} {node : SchemaNode}
    (outer : Writes around endpoints (.inline schema))
    (value : schema.additionalSchema? = some node) : Writes around endpoints node

/-- The node stands in a document, or is a schema that does, with one of its types alone. -/
inductive Takes (around : Surroundings) (endpoints : List Endpoint) : SchemaNode → Prop
  | whole {node : SchemaNode} (h : around.Writes endpoints node) : Takes around endpoints node
  | only {schema : Schema} (h : around.Writes endpoints (.inline schema)) (type : SchemaType) :
    Takes around endpoints (.inline (schema.only type))

variable {around : Surroundings} {endpoints : List Endpoint} {schema : Schema}

/-- Apart from its types a schema is taken as it stands in the document. -/
theorem Takes.written (h : around.Takes endpoints (.inline schema)) :
    ∃ written, around.Writes endpoints (.inline written) ∧
      (schema = written ∨ ∃ type, schema = written.only type) := by
  cases h with
  | whole hw => exact ⟨schema, hw, .inl rfl⟩
  | only hw type => exact ⟨_, hw, .inr ⟨type, rfl⟩⟩

end Surroundings

/-- What is built of schemas of some kind, and what stands where there is no schema. -/
inductive Registry.Makes (registry : Registry) (fit : SchemaNode → Prop) : Model → Prop
  | freeForm : Makes registry fit .freeForm
  | text : Makes registry fit (.primitive (.string none))
  | built {depth : Nat} {trail : Trail} {schema : Schema} {pos : Position} {arena after : Arena}
    {model : Model} (fits : fit (.inline schema))
    (comes : outcome (registry.buildForm (registry.callsWithin Registry.noCalls depth)
      (pure .freeForm) trail schema pos (registry.form schema)) arena = (.ok model, after)) :
    Makes registry fit model
  | typed {depth : Nat} {trail : Trail} {schema : Schema} {pos : Position} {arena after : Arena}
    {model : Model} (fits : fit (.inline schema))
    (comes : outcome (registry.buildTypeUnion (registry.callsWithin Registry.noCalls depth)
      trail schema pos) arena = (.ok model, after)) : Makes registry fit model

/-- The form of a schema that comes to such a model. -/
def Model.OfForm (form : Form) : Model → Prop
  | .object _ => form = .merged ∨ form = .object
  | .collection _ => form = .array ∨ ∃ value, form = .map value
  | .union _ => form = .union
  | .freeForm => True
  | _ => form = .plain

namespace Registry

variable {registry : Registry} {calls : Calls} {trail : Trail} {schema : Schema} {pos : Position}
  {fit : SchemaNode → Prop}

theorem plainModel_ofForm {model : Model} (h : registry.plainModel schema pos = .ok model) :
    model.OfForm .plain := by
  unfold plainModel at h
  split at h
  next =>
    cases h
    rfl
  next =>
    obtain ⟨enum, rfl⟩ := buildEnum_eq_ok h
    rfl
  next =>
    split at h
    next =>
      cases h
      rfl
    next =>
      split at h
      next =>
        cases h
        rfl
      next =>
        cases h
        trivial

/-- A schema taken as a whole comes to a model of its form. -/
theorem buildForm_ofForm (form : Form) : Yields
    (registry.buildForm calls (pure .freeForm) trail schema pos form) (Model.OfForm form) := by
  cases form with
  | merged =>
    simp only [buildForm, buildAllOf]
    split
    next => exact Yields.throw
    next => exact Yields.last fun _ => by split <;> exact Yields.pure (by simp [Model.OfForm])
  | object => exact Yields.last fun _ => Yields.pure (.inr rfl)
  | array =>
    simp only [buildForm, buildArray]
    cases schema.items <;> exact Yields.last fun _ => Yields.pure (.inl rfl)
  | map value => exact Yields.last fun _ => Yields.pure (.inr ⟨value, rfl⟩)
  | union => exact Yields.last fun _ => by split <;> exact Yields.pure (by simp [Model.OfForm])
  | several => exact Yields.pure trivial
  | plain => exact Yields.lift fun _ => plainModel_ofForm

theorem buildTypeUnion_isUnion : (registry.buildTypeUnion calls trail schema pos).Yields
    fun model => ∃ union, model = .union union :=
  Yields.last fun _ => Yields.pure ⟨_, rfl⟩

theorem buildForm_several {several other : Resolving Model} {form : Form} (h : form ≠ .several) :
    registry.buildForm calls several trail schema pos form =
      registry.buildForm calls other trail schema pos form := by
  cases form with
  | several => exact absurd rfl h
  | _ => rfl

/-- Enums are made of schemas with nothing below them. -/
theorem Makes.plain_of_enum {enum : EnumModel} (h : registry.Makes fit (.enum enum)) :
    ∃ schema pos, fit (.inline schema) ∧ registry.plainModel schema pos = .ok (.enum enum) := by
  cases h with
  | built fits comes =>
    have hform := buildForm_ofForm _ _ _ _ comes
    have hplain : registry.form _ = .plain := hform
    rw [hplain, buildForm, outcome_lift] at comes
    exact ⟨_, _, fits, (Prod.mk.inj comes).1⟩
  | typed fits comes =>
    obtain ⟨union, he⟩ := buildTypeUnion_isUnion _ _ _ comes
    cases he

/-- Unions are made of the branches of a schema, or of its types. -/
theorem Makes.of_union {union : UnionModel} (h : registry.Makes fit (.union union)) :
    ∃ depth trail schema pos arena after, fit (.inline schema) ∧
      (outcome (buildUnion (registry.callsWithin noCalls depth) trail schema pos) arena =
          (.ok (.union union), after) ∨
        outcome (registry.buildTypeUnion (registry.callsWithin noCalls depth) trail schema pos)
          arena = (.ok (.union union), after)) := by
  cases h with
  | built fits comes =>
    have hform := buildForm_ofForm _ _ _ _ comes
    have hunion : registry.form _ = .union := hform
    rw [hunion] at comes
    exact ⟨_, _, _, _, _, _, fits, .inl comes⟩
  | typed fits comes => exact ⟨_, _, _, _, _, _, fits, .inr comes⟩

end Registry

namespace Surroundings

/-- That models are made of schemas of the document is a standard that they meet. -/
def made (around : Surroundings) (endpoints : List Endpoint) : Standard around.registry where
  fit := around.Takes endpoints
  meets := around.registry.Makes (around.Takes endpoints)
  component _ _ h := .whole (.component h)
  property h _ hm := by
    obtain ⟨written, hw, rfl | ⟨type, rfl⟩⟩ := h.written <;> exact .whole (.property hw hm)
  branch h _ hm := by
    obtain ⟨written, hw, rfl | ⟨type, rfl⟩⟩ := h.written <;> exact .whole (.branch hw hm)
  case h _ hm := by
    obtain ⟨written, hw, rfl | ⟨type, rfl⟩⟩ := h.written <;> exact .whole (.case hw hm)
  items h _ hi := by
    obtain ⟨written, hw, rfl | ⟨type, rfl⟩⟩ := h.written <;> exact .whole (.items hw hi)
  value h _ hv := by
    obtain ⟨written, hw, rfl | ⟨type, rfl⟩⟩ := h.written <;> exact .whole (.value hw hv)
  type h type := by
    obtain ⟨written, hw, rfl | ⟨other, rfl⟩⟩ := h.written
    · exact .only hw type
    · exact .only hw type
  freeForm := .freeForm
  typed _ _ _ _ h _ _ _ ho := .typed h ho
  built _ several _ schema _ h hs arena model after ho := by
    by_cases hform : around.registry.form schema = .several
    · rw [hform] at ho
      exact hs arena model after ho
    · rw [Registry.buildForm_several hform] at ho
      exact .built h ho

end Surroundings

/-- Every model of a document is made of a schema that stands in it. -/
theorem Document.makes_of_get? {settings : Settings} {document : Document} {id : ModelId}
    {model : Model} (h : (document.resolve settings).2.1.get? id = some model) :
    (document.surroundings settings).registry.Makes
      ((document.surroundings settings).Takes document.endpoints) model :=
  ((document.surroundings settings).made document.endpoints).meets_of_get? .text
    (fun _ he _ ha => .whole (.asked he ha)) h

end ApiAtlas
