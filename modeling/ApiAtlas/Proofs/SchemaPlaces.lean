import ApiAtlas.Proofs.Pointers
import ApiAtlas.Proofs.SchemaForm
import ApiAtlas.Proofs.Wrappers

namespace ApiAtlas

namespace Document

/-- A parameter as an operation or its path lists it, and where. -/
inductive Lists (document : Document) : Referable Parameter → String → Prop
  | shared {endpoint : Endpoint} (mem : endpoint ∈ document.endpoints) {index : Nat}
      {node : Referable Parameter} (h : endpoint.item.parameters[index]? = some node) :
      Lists document node
        (below (below (parentPointer endpoint.pointer) "parameters") (toString index))
  | own {endpoint : Endpoint} (mem : endpoint ∈ document.endpoints) {index : Nat}
      {node : Referable Parameter} (h : endpoint.operation.parameters[index]? = some node) :
      Lists document node (below (below endpoint.pointer "parameters") (toString index))

/-- A place where something is looked for that the document has elsewhere. -/
inductive Astray (document : Document) : String → Prop
  /-- The name of a component stands in its pointer as it is. -/
  | name {name : String} {node : SchemaNode} (mem : (name, node) ∈ document.schemas)
      (h : escapeToken name ≠ name) : Astray document (Section.schemas.pointer name)
  /-- The schema of a parameter is looked for below the reference to the parameter. -/
  | parameter {path place : String} (h : document.Lists (.ref path) place) :
      Astray document (below place "schema")
  /-- The schema of a parameter is that of a media type of it. -/
  | content {parameter : Parameter} {place : String} (h : document.Lists (.inline parameter) place)
      (none : parameter.schema = none) : Astray document (below place "schema")
  /-- The media types of a body are looked for below the reference to the body. -/
  | body {endpoint : Endpoint} {path : String} (mem : endpoint ∈ document.endpoints)
      (h : endpoint.operation.requestBody = some (.ref path)) :
      Astray document (below (below endpoint.pointer "requestBody") "content")
  /-- The media types of a response are looked for below the reference to the response. -/
  | response {endpoint : Endpoint} {key path : String} (mem : endpoint ∈ document.endpoints)
      (h : (key, .ref path) ∈ endpoint.operation.responses.entries) :
      Astray document
        (below (below (below endpoint.pointer "responses") (escapeToken key)) "content")
  /-- The items of a schema of several types are looked for below one of its types. -/
  | items {schema : Schema} {place : String} {index : Nat}
      (h : document.Holds place (SchemaNode.inline schema).toJson)
      (several : 1 < schema.nonNullTypes.length) (items : schema.items.isSome = true) :
      Astray document (below (below (below place "type") (toString index)) "items")
  | further {place : String} (h : Astray document place) (member : String) :
      Astray document (below place member)

/-- The document has a value at the place, or the place is astray. -/
def Explains (document : Document) (place : String) : Prop :=
  (∃ value, document.Holds place value) ∨ document.Astray place

/-- The node stands at the place, or the place is astray. -/
def Stands (document : Document) (node : SchemaNode) (place : String) : Prop :=
  document.Holds place node.toJson ∨ document.Astray place

/-- What is below a schema at a place stands where it is looked for. -/
structure Sited (document : Document) (schema : Schema) (place : String) : Prop where
  here : document.Explains place
  property : ∀ {name node}, (name, node) ∈ schema.properties →
    document.Stands node (below (below place "properties") (escapeToken name))
  branch : ∀ {node index}, (node, index) ∈ schema.allOf.zipIdx →
    document.Stands node (below (below place "allOf") (toString index))
  case : ∀ {node index}, (node, index) ∈ schema.composition.zipIdx →
    document.Stands node (below (below place schema.compositionKeyword) (toString index))
  items : ∀ {node}, schema.items = some node → document.Stands node (below place "items")
  additional : ∀ {node}, schema.additionalSchema? = some node →
    document.Stands node (below place "additionalProperties")

variable {document : Document} {schema : Schema} {node : SchemaNode} {place : String}

theorem Stands.explained (h : document.Stands node place) : document.Explains place :=
  h.imp_left fun held => ⟨_, held⟩

section Written
variable (h : document.Holds place (SchemaNode.inline schema).toJson)
include h

theorem Holds.ofTable (name : String) {value : Json}
    (hm : (name, some value) ∈ schema.table SchemaNode.toJson) :
    document.Holds (below place (escapeToken name)) value := by
  rw [SchemaNode.toJson_inline] at h
  exact h.inside name (Table.mem_inside hm)

theorem Holds.property {name : String} (hm : (name, node) ∈ schema.properties) :
    document.Holds (below (below place "properties") (escapeToken name)) node.toJson := by
  rw [SchemaNode.toJson_inline] at h
  refine h.mapMember "properties" (fun v hv => ?_) hm
  apply Table.mem_inside
  simp [SchemaOf.table, hv]

theorem Holds.branch {index : Nat} (hm : (node, index) ∈ schema.allOf.zipIdx) :
    document.Holds (below (below place "allOf") (toString index)) node.toJson := by
  rw [SchemaNode.toJson_inline] at h
  refine h.listItem "allOf" (fun v hv => ?_) (List.mem_zipIdx_iff_getElem?.mp hm)
  apply Table.mem_inside
  simp [SchemaOf.table, hv]

theorem Holds.case {index : Nat} (hm : (node, index) ∈ schema.composition.zipIdx) :
    document.Holds (below (below place schema.compositionKeyword) (toString index))
      node.toJson := by
  rw [SchemaNode.toJson_inline] at h
  have hi := List.mem_zipIdx_iff_getElem?.mp hm
  unfold SchemaOf.composition at hi
  unfold SchemaOf.compositionKeyword
  split
  next ho =>
    rw [if_pos ho] at hi
    refine h.listItem "anyOf" (fun v hv => ?_) hi
    apply Table.mem_inside
    simp [SchemaOf.table, hv]
  next ho =>
    rw [if_neg ho] at hi
    refine h.listItem "oneOf" (fun v hv => ?_) hi
    apply Table.mem_inside
    simp [SchemaOf.table, hv]

theorem Holds.itemsOf (hi : schema.items = some node) :
    document.Holds (below place "items") node.toJson := by
  apply Holds.ofTable h "items"
  simp [SchemaOf.table, hi]

theorem Holds.additionalOf (ha : schema.additionalSchema? = some node) :
    document.Holds (below place "additionalProperties") node.toJson := by
  apply Holds.ofTable h "additionalProperties"
  unfold SchemaOf.additionalSchema? at ha
  split at ha
  next other he =>
    cases Option.some.inj ha
    simp [SchemaOf.table, he, Additional.toJson]
  next => cases ha

/-- One of several types. -/
theorem Holds.typeOf (several : 1 < schema.nonNullTypes.length) {index : Nat}
    (hi : index < schema.nonNullTypes.length) :
    ∃ value, document.Holds (below (below place "type") (toString index)) value := by
  unfold SchemaOf.nonNullTypes at several hi
  cases ht : schema.types with
  | none => simp [ht] at several
  | some types =>
    cases types with
    | single type =>
      have hone : (TypeSet.single type).nonNull.length ≤ 1 := by cases type <;> decide
      rw [ht] at several
      exact absurd several (Nat.not_lt.mpr hone)
    | several types =>
      have hle : (TypeSet.several types).nonNull.length ≤ types.length := List.length_filter_le _ _
      rw [ht] at hi
      have hlt : index < types.length := Nat.lt_of_lt_of_le hi hle
      have hrow : ("type", some (TypeSet.several types).toJson) ∈
          schema.table SchemaNode.toJson := by simp [SchemaOf.table, ht]
      have hlist := Holds.ofTable h "type" hrow
      refine ⟨.string types[index].name, hlist.item ?_⟩
      rw [List.getElem?_map, List.getElem?_eq_getElem hlt]
      rfl

end Written

theorem Stands.sited (h : document.Stands (.inline schema) place) :
    document.Sited schema place where
  here := h.explained
  property hm := h.imp (fun held => held.property hm) fun lost =>
    (lost.further _).further _
  branch hm := h.imp (fun held => held.branch hm) fun lost => (lost.further _).further _
  case hm := h.imp (fun held => held.case hm) fun lost => (lost.further _).further _
  items hi := h.imp (fun held => held.itemsOf hi) fun lost => lost.further _
  additional ha := h.imp (fun held => held.additionalOf ha) fun lost => lost.further _

theorem Stands.unwrapWithin (fuel : Nat) : ∀ {node : SchemaNode} {place : String},
    document.Stands node place → document.Stands (node.unwrapWithin fuel place).node
      (node.unwrapWithin fuel place).pointer := by
  induction fuel with
  | zero =>
    intro node place h
    cases node <;> exact h
  | succ fuel ih =>
    intro node place h
    cases node with
    | ref path => exact h
    | inline schema =>
      rw [SchemaNode.unwrapWithin]
      split
      next => exact h
      next peeled hp =>
        apply ih
        cases (SchemaOf.wraps_of_peel? hp).2 with
        | sole keyword branch =>
          rw [keyword]
          exact h.sited.branch branch
        | null keyword branch =>
          rw [keyword]
          exact h.sited.case branch

theorem Stands.unwrap (h : document.Stands node place) :
    document.Stands (node.unwrap place).node (node.unwrap place).pointer :=
  h.unwrapWithin _

/-- A schema of several types taken with one of them. -/
theorem Stands.ofType {registry : Registry} {types : Option TypeSet} {nullable : Option Bool}
    {index : Nat} (h : document.Stands (.inline schema) place)
    (hform : registry.form schema = .several) (hi : index < schema.nonNullTypes.length) :
    document.Sited { schema with types, nullable }
      (below (below place "type") (toString index)) := by
  obtain ⟨hall, hproperties, hadditional, hcomposition, hmany⟩ := Registry.form_eq_several hform
  refine ⟨?_, ?_, ?_, ?_, ?_, ?_⟩
  · rcases h with held | lost
    · exact .inl (held.typeOf hmany hi)
    · exact .inr ((lost.further _).further _)
  · intro name node hm
    simp [hproperties] at hm
  · intro node index hm
    simp [hall] at hm
  · intro node index hm
    have hnone : ({ schema with types, nullable } : Schema).composition = [] := hcomposition
    simp [hnone] at hm
  · intro node hn
    apply Or.inr
    rcases h with held | lost
    · have hitems : schema.items = some node := hn
      exact .items held hmany (by simp [hitems])
    · exact ((lost.further _).further _).further _
  · intro node ha
    have hnone : ({ schema with types, nullable } : Schema).additionalSchema? = none := hadditional
    simp [hnone] at ha

end Document

end ApiAtlas
