import ApiAtlas.Resolve.Schema

namespace ApiAtlas

/-- The component that a reference into a section names. -/
def Section.named? (kind : Section) (path : String) : Option String :=
  (referenceName? kind path.toList).map String.ofList

theorem Section.parseName_eq (kind : Section) (path location : String) :
    kind.parseName path location =
      match kind.named? path with
      | some name => .ok name
      | none => .error (.invalidRefFormat path location) := by
  unfold Section.parseName Section.named?
  cases referenceName? kind path.toList <;> rfl

theorem Section.parseName_eq_ok_iff {kind : Section} {path location name : String} :
    kind.parseName path location = .ok name ↔ kind.named? path = some name := by
  rw [Section.parseName_eq]
  cases kind.named? path <;> simp

/-- A node without its wrappers. -/
def SchemaNode.bare (node : SchemaNode) : SchemaNode := (node.unwrap "").node

theorem SchemaNode.unwrapWithin_node (fuel : Nat) (node : SchemaNode) (pointer other : String) :
    (unwrapWithin fuel node pointer).node = (unwrapWithin fuel node other).node := by
  induction fuel generalizing node pointer other with
  | zero => cases node <;> rfl
  | succ fuel ih =>
    cases node with
    | ref path => rfl
    | inline schema =>
      simp only [unwrapWithin]
      cases schema.peel? with
      | none => rfl
      | some peeled => exact ih _ _ _

theorem SchemaNode.unwrap_node (node : SchemaNode) (pointer : String) :
    (node.unwrap pointer).node = node.bare :=
  unwrapWithin_node _ _ _ _

@[simp] theorem SchemaNode.bare_ref (path : String) : (SchemaNode.ref path).bare = .ref path := by
  unfold bare unwrap
  cases (SchemaNode.ref path).size <;> rfl

theorem SchemaNode.bare_inline {schema : Schema} (h : schema.peel? = none) :
    (SchemaNode.inline schema).bare = .inline schema := by
  unfold bare unwrap
  cases (SchemaNode.inline schema).size with
  | zero => rfl
  | succ fuel => simp only [unwrapWithin, h]

/-- What the model of a schema is built from. -/
inductive Form
  /-- The branches of `allOf`. -/
  | merged
  /-- Its own properties. -/
  | object
  /-- The schema of its items. -/
  | array
  /-- The schema of all its members. -/
  | map (value : SchemaNode)
  /-- The branches of `oneOf` or `anyOf`. -/
  | union
  /-- Its types, one by one. -/
  | several
  /-- Nothing below it. -/
  | plain
deriving Repr

namespace Registry

/-- The form of a schema. -/
def form (registry : Registry) (schema : Schema) : Form :=
  if !schema.allOf.isEmpty then .merged
  else if !schema.properties.isEmpty || schema.allowsAdditional?.isSome then .object
  else if schema.nonNullTypes == [.array] ||
      (schema.nonNullTypes.isEmpty && schema.items.isSome) then .array
  else
    match schema.additionalSchema?, schema.openStrings? with
    | some value, _ => .map value
    | none, some _ => .plain
    | none, none =>
      if !schema.composition.isEmpty then .union
      else if (schema.enumSource? registry.openExtensions).isSome then .plain
      else if schema.format == some "binary" &&
          (schema.nonNullTypes.isEmpty || schema.nonNullTypes == [.string]) then .plain
      else if 1 < schema.nonNullTypes.length then .several
      else .plain

/-- The model of a schema with nothing below it. -/
def plainModel (registry : Registry) (schema : Schema) (pos : Position) :
    Except ResolveError Model :=
  match schema.openStrings?, schema.enumSource? registry.openExtensions with
  | some values, _ => .ok (.enum ⟨.extensible, pos.context, values,
      schema.defaultValue.map Json.rawText, schema.description⟩)
  | none, some values => registry.buildEnum schema values pos
  | none, none =>
    if schema.format == some "binary" &&
        (schema.nonNullTypes.isEmpty || schema.nonNullTypes == [.string]) then .ok .binary
    else
      match schema.nonNullTypes.head?.bind SchemaType.primitiveKind? with
      | some kind => .ok (.primitive (.ofDefault kind schema.defaultValue))
      | none => .ok .freeForm

/-- The model of an array. -/
def buildArray (calls : Calls) (trail : Trail) (schema : Schema) (pos : Position) :
    Resolving Model := do
  let element ← match schema.items with
    | some items => calls.resolve trail items (pos.at (below pos.pointer "items"))
    | none => Resolving.freeForm pos.scope
  pure (.collection (if schema.uniqueItems.getD false then .set element else .list element))

/-- The model of a map. -/
def buildMap (calls : Calls) (trail : Trail) (value : SchemaNode) (pos : Position) :
    Resolving Model := do
  let element ← calls.resolve trail value (pos.at (below pos.pointer "additionalProperties"))
  pure (.collection (.map element))

/-- The model of a schema of a given form. -/
def buildForm (registry : Registry) (calls : Calls) (several : Resolving Model) (trail : Trail)
    (schema : Schema) (pos : Position) : Form → Resolving Model
  | .merged => registry.buildAllOf calls trail schema pos
  | .object => buildObject calls trail schema pos
  | .array => buildArray calls trail schema pos
  | .map value => buildMap calls trail value pos
  | .union => buildUnion calls trail schema pos
  | .several => several
  | .plain => liftM (registry.plainModel schema pos)

variable {registry : Registry} {calls : Calls} {several : Resolving Model} {trail : Trail}
  {schema : Schema} {pos : Position}

theorem classify_eq_buildForm : registry.classify calls several trail schema pos =
    registry.buildForm calls several trail schema pos (registry.form schema) := by
  unfold classify form
  simp only
  split
  next => rfl
  next =>
    split
    next => rfl
    next =>
      split
      next =>
        unfold buildForm buildArray
        cases schema.items <;> rfl
      next =>
        cases hm : schema.additionalSchema? with
        | some value => rfl
        | none =>
          cases ho : schema.openStrings? with
          | some values => simp only [buildForm, plainModel, ho]; rfl
          | none =>
            simp only
            split
            next => rfl
            next =>
              cases he : schema.enumSource? registry.openExtensions with
              | some values => simp [buildForm, plainModel, ho, he]
              | none =>
                simp only [Option.isSome_none, Bool.false_eq_true, ↓reduceIte]
                split
                next hb => simp only [buildForm, plainModel, ho, he, hb, ↓reduceIte]; rfl
                next hb =>
                  match ht : schema.nonNullTypes with
                  | [] =>
                    rw [ht] at hb
                    simp only [buildForm, plainModel, ho, he, ht, if_neg hb]
                    rfl
                  | [type] =>
                    rw [ht] at hb
                    simp only [buildForm, plainModel, ho, he, ht, if_neg hb]
                    cases hk : type.primitiveKind? <;> simp [hk] <;> rfl
                  | first :: second :: rest => simp [buildForm]

theorem form_eq_map {value : SchemaNode}
    (h : registry.form schema = .map value) : schema.additionalSchema? = some value := by
  unfold form at h
  split at h
  · cases h
  · split at h
    · cases h
    · split at h
      · cases h
      · cases ha : schema.additionalSchema? with
        | some node =>
          simp only [ha] at h
          cases h
          rfl
        | none =>
          simp only [ha] at h
          cases ho : schema.openStrings? with
          | some values =>
            simp only [ho] at h
            cases h
          | none =>
            simp only [ho] at h
            split at h
            next => cases h
            next =>
              split at h
              next => cases h
              next =>
                split at h
                next => cases h
                next => split at h <;> cases h

/-- A schema is taken type by type only if it has nothing below it but items. -/
theorem form_eq_several (h : registry.form schema = .several) :
    schema.allOf = [] ∧ schema.properties = [] ∧ schema.additionalSchema? = none ∧
      schema.composition = [] ∧ 1 < schema.nonNullTypes.length := by
  unfold form at h
  split at h
  next => cases h
  next hall =>
    split at h
    next => cases h
    next hobject =>
      split at h
      next => cases h
      next =>
        cases ha : schema.additionalSchema? with
        | some value =>
          simp only [ha] at h
          cases h
        | none =>
          simp only [ha] at h
          split at h
          next hnone => cases hnone
          next => cases h
          next =>
            split at h
            next => cases h
            next hunion =>
              split at h
              next => cases h
              next =>
                split at h
                next => cases h
                next =>
                  split at h
                  next hmany =>
                    simp only [Bool.not_eq_true', Bool.not_eq_false, List.isEmpty_iff,
                      Bool.or_eq_true, not_or] at hall hobject hunion
                    exact ⟨hall, hobject.1, rfl, hunion, hmany⟩
                  next => cases h

theorem buildEnum_eq_ok {values : List Json} {model : Model}
    (h : registry.buildEnum schema values pos = .ok model) : ∃ enum, model = .enum enum := by
  unfold buildEnum at h
  split at h
  · cases h
  · cases h
  · simp only at h
    split at h <;> exact ⟨_, (Except.ok.inj h).symm⟩

theorem plainModel_children {model : Model} (h : registry.plainModel schema pos = .ok model) :
    model.children = [] := by
  unfold plainModel at h
  split at h
  · cases h
    rfl
  · obtain ⟨enum, rfl⟩ := buildEnum_eq_ok h
    rfl
  · split at h
    next =>
      cases h
      rfl
    next => split at h <;> cases h <;> rfl

theorem plainModel_ne_object {model : Model} (h : registry.plainModel schema pos = .ok model)
    (object : ObjectModel) : model ≠ .object object := by
  rintro rfl
  unfold plainModel at h
  split at h
  · cases h
  · obtain ⟨enum, he⟩ := buildEnum_eq_ok h
    cases he
  · split at h
    next => cases h
    next => split at h <;> cases h

/-- Where a schema stands does not decide whether it has a model. -/
theorem plainModel_error {error : ResolveError} (h : registry.plainModel schema pos = .error error)
    (other : Position) : ∃ error', registry.plainModel schema other = .error error' := by
  unfold plainModel at h ⊢
  split at h
  next => cases h
  next values _ _ =>
    unfold buildEnum at h ⊢
    cases hc : collectEnum none [] values with
    | error reason => exact ⟨_, rfl⟩
    | ok found =>
      obtain ⟨carrier, texts⟩ := found
      cases carrier with
      | none => exact ⟨_, rfl⟩
      | some carrier =>
        simp only [hc] at h
        split at h <;> cases h
  next =>
    split at h
    next => cases h
    next => split at h <;> cases h

theorem plainModel_freeForm (h : registry.plainModel schema pos = .ok .freeForm)
    (other : Position) : registry.plainModel schema other = .ok .freeForm := by
  unfold plainModel at h ⊢
  split at h
  next => cases h
  next =>
    obtain ⟨enum, he⟩ := buildEnum_eq_ok h
    cases he
  next => exact h

theorem buildSchema_eq_buildForm : registry.buildSchema calls trail schema pos =
    registry.buildForm calls (registry.buildTypeUnion calls trail schema pos) trail schema pos
      (registry.form schema) :=
  classify_eq_buildForm

end Registry

end ApiAtlas
