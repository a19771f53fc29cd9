import ApiAtlas.Proofs.CallTree

namespace ApiAtlas

/-- What one part brings to the object that it is merged into. -/
structure Contribution where
  properties : List Property
  required : List String := []
  additional : Bool
  shaped : Bool

/-- What a finished object brings: its properties as they are. -/
def ObjectModel.contribution (object : ObjectModel) : Contribution where
  properties := object.properties
  additional := object.additional
  shaped := true

/-- What a schema brings itself, once its own properties are resolved. -/
def SchemaOf.contribution (schema : Schema) (properties : List Property) : Contribution where
  properties
  required := schema.required
  additional := schema.allowsAdditional? == some true
  shaped := Registry.declaresObject schema

namespace Merged

def absorb (merged : Merged) (part : Contribution) : Merged where
  properties := (part.properties.foldl Merged.insert merged).properties
  required := part.required.foldl
    (fun names name => if names.contains name then names else names ++ [name]) merged.required
  additional := merged.additional || part.additional
  shaped := merged.shaped || part.shaped

def absorbAll (merged : Merged) (parts : List Contribution) : Merged := parts.foldl absorb merged

@[simp] theorem absorbAll_nil (merged : Merged) : merged.absorbAll [] = merged := rfl

@[simp] theorem absorbAll_cons (merged : Merged) (part : Contribution)
    (rest : List Contribution) :
    merged.absorbAll (part :: rest) = (merged.absorb part).absorbAll rest := rfl

theorem absorbAll_append (merged : Merged) (first second : List Contribution) :
    merged.absorbAll (first ++ second) = (merged.absorbAll first).absorbAll second :=
  List.foldl_append

theorem absorbAll_flatten (merged : Merged) (partss : List (List Contribution)) :
    merged.absorbAll partss.flatten = partss.foldl absorbAll merged :=
  List.foldl_flatten

/-- Properties are put in without a look at the rest of the object. -/
theorem foldl_insert_eq (properties : List Property) : ∀ merged other : Merged,
    merged.properties = other.properties →
      properties.foldl Merged.insert merged =
        { merged with properties := (properties.foldl Merged.insert other).properties } := by
  induction properties with
  | nil =>
    intro merged other h
    rw [List.foldl_nil, List.foldl_nil, ← h]
  | cons property rest ih =>
    intro merged other h
    have hinsert : (merged.insert property).properties = (other.insert property).properties := by
      simp only [insert, h]
    rw [List.foldl_cons, List.foldl_cons, ih _ _ hinsert]
    rfl

theorem absorb_object (merged : Merged) (object : ObjectModel) :
    merged.absorb object.contribution = object.properties.foldl Merged.insert
      { merged with shaped := true, additional := merged.additional || object.additional } := by
  rw [foldl_insert_eq object.properties
    { merged with shaped := true, additional := merged.additional || object.additional } merged rfl]
  simp [absorb, ObjectModel.contribution]

theorem absorb_schema (merged : Merged) (schema : Schema) (properties : List Property) :
    merged.absorb (schema.contribution properties) =
      let result := properties.foldl Merged.insert
        { merged with shaped := merged.shaped || Registry.declaresObject schema }
      { result with
        required := schema.required.foldl
          (fun names name => if names.contains name then names else names ++ [name]) result.required
        additional := result.additional || schema.allowsAdditional? == some true } := by
  simp only
  rw [foldl_insert_eq properties
    { merged with shaped := merged.shaped || Registry.declaresObject schema } merged rfl]
  rfl

end Merged

/-- How the text of a schema at a location is flattened. -/
abbrev Flatten := Trail → Schema → String → Position → Resolving (List Contribution)

/-- The calls merge what is flattened. -/
def Calls.Flattens (calls : Calls) (flatten : Flatten) : Prop :=
  ∀ trail schema pointer pos merged,
    calls.merge trail schema pointer pos merged =
      merged.absorbAll <$> flatten trail schema pointer pos

namespace Registry

/-- The properties of a schema at `parent`, one after the other. -/
def resolveProperties (calls : Calls) (trail : Trail) (schema : Schema) (parent : String)
    (pos : Position) : Resolving (List Property) :=
  schema.properties.mapM fun (name, node) => resolveProperty calls trail parent pos name node

/-- The text of a component that is still being built. -/
def flattenUnfinished (registry : Registry) (flatten : Flatten) (trail : Trail)
    (path location : String) (pos : Position) : Resolving (List Contribution) := do
  let (name, body) ← registry.writtenComponent (registry.schemas.length + 1) [] path location
  if trail.inheriting.contains name then
    throw (.circularRef (trail.inheriting ++ [name]) location)
  if !body.isObjectCompatible then
    throw (.schemaShape ("allOf branch " ++ path ++ " is not an object") location)
  flatten { trail with inheriting := trail.inheriting ++ [name] } body
    (Section.schemas.pointer name) pos

/-- A component brings its object, or what its text brings while it is still being built. -/
def flattenComponent (registry : Registry) (calls : Calls) (flatten : Flatten) (trail : Trail)
    (path location : String) (pos : Position) : Resolving (List Contribution) := do
  let target ← registry.resolveRef calls trail path location
  let arena ← get
  match arena.model? target.id with
  | some (.object object) => pure [object.contribution]
  | some .freeForm => pure []
  | some _ => throw (.schemaShape ("allOf branch " ++ path ++ " is not an object") location)
  | none => registry.flattenUnfinished flatten trail path location pos

/-- A branch brings what its component or its text brings; an annotation brings nothing. -/
def flattenBranch (registry : Registry) (calls : Calls) (flatten : Flatten) (trail : Trail)
    (pointer : String) (pos : Position) (branch : SchemaNode × Nat) :
    Resolving (List Contribution) :=
  let location := below (below pointer "allOf") (toString branch.2)
  match branch.1 with
  | .ref path => registry.flattenComponent calls flatten trail path location pos
  | .inline schema =>
    if schema.isAnnotation then pure []
    else if schema.isObjectCompatible then flatten trail schema location pos
    else throw (.schemaShape "allOf branch is not an object" location)

/-- The branches bring theirs in order, and the schema itself comes last. -/
def flattenSchema (registry : Registry) (calls : Calls) (flatten : Flatten) (trail : Trail)
    (schema : Schema) (pointer : String) (pos : Position) : Resolving (List Contribution) := do
  let branches ← schema.allOf.zipIdx.mapM
    (registry.flattenBranch calls flatten trail pointer pos)
  let own ← resolveProperties calls trail schema pointer pos
  pure (branches.flatten ++ [schema.contribution own])

/-- Flattening, with calls nested at most `depth` deep. -/
def flattenWithin (registry : Registry) : Nat → Flatten
  | 0 => fun _ _ pointer _ => throw (.schemaShape "nested too deeply" pointer)
  | depth + 1 => registry.flattenSchema (registry.callsWithin noCalls depth)
      (registry.flattenWithin depth)

theorem mapM_map {α β γ : Type} (f : α → β) (each : γ → Resolving α) (items : List γ) :
    (items.mapM fun item => f <$> each item) = List.map f <$> items.mapM each := by
  induction items with
  | nil => simp
  | cons item rest ih =>
    simp only [List.mapM_cons, ih, bind_map_left, map_bind, bind_pure_comp, Functor.map_map,
      List.map_cons]

theorem foldlM_eq_mapM {α β γ : Type} (items : List γ) (each : γ → Resolving α)
    (step : β → α → β) (b : β) :
    items.foldlM (fun b item => step b <$> each item) b =
      (fun as => as.foldl step b) <$> items.mapM each := by
  induction items generalizing b with
  | nil => simp
  | cons item rest ih =>
    simp only [List.foldlM_cons, List.mapM_cons, bind_map_left, map_bind, bind_pure_comp,
      Functor.map_map, ih, List.foldl_cons]

variable {registry : Registry} {calls : Calls} {flatten : Flatten} {trail : Trail} {schema : Schema}
  {path location pointer : String} {pos : Position} {merged : Merged}

theorem mergeUnfinished_eq_flatten (h : calls.Flattens flatten) :
    registry.mergeUnfinished calls trail path location pos merged =
      merged.absorbAll <$> registry.flattenUnfinished flatten trail path location pos := by
  rw [mergeUnfinished_eq]
  unfold flattenUnfinished
  rw [map_bind]
  congr 1
  funext (name, body)
  simp only
  split
  next => rfl
  next =>
    split
    next => rfl
    next => exact h _ _ _ _ _

theorem mergeComponent_eq_flatten (h : calls.Flattens flatten) :
    registry.mergeComponent calls trail path location pos merged =
      merged.absorbAll <$> registry.flattenComponent calls flatten trail path location pos := by
  unfold mergeComponent flattenComponent
  rw [map_bind]
  congr 1
  funext target
  rw [map_bind]
  congr 1
  funext arena
  cases arena.model? target.id with
  | none => exact mergeUnfinished_eq_flatten h
  | some model =>
    cases model with
    | object object => simp [Merged.absorb_object]
    | freeForm => simp
    | _ => rfl

theorem mergeBranch_eq_flatten (h : calls.Flattens flatten) (branch : SchemaNode × Nat) :
    registry.mergeBranch calls trail pointer pos merged branch =
      merged.absorbAll <$> registry.flattenBranch calls flatten trail pointer pos branch := by
  obtain ⟨node, index⟩ := branch
  unfold mergeBranch flattenBranch
  cases node with
  | ref path => exact mergeComponent_eq_flatten h
  | inline schema =>
    simp only
    split
    next => simp
    next =>
      split
      next => exact h _ _ _ _ _
      next => rfl

/-- Merging a schema is flattening it and folding what comes of that. -/
theorem mergeSchema_eq_flatten (h : calls.Flattens flatten) :
    registry.mergeSchema calls trail schema pointer pos merged =
      merged.absorbAll <$> registry.flattenSchema calls flatten trail schema pointer pos := by
  have hbranch : registry.mergeBranch calls trail pointer pos = fun merged branch =>
      merged.absorbAll <$> registry.flattenBranch calls flatten trail pointer pos branch :=
    funext fun _ => funext fun branch => mergeBranch_eq_flatten h branch
  have hbranches := foldlM_eq_mapM schema.allOf.zipIdx
    (registry.flattenBranch calls flatten trail pointer pos)
    Merged.absorbAll merged
  have hown := foldlM_eq_mapM schema.properties
    (fun (name, node) => resolveProperty calls trail pointer pos name node) Merged.insert
  unfold mergeSchema flattenSchema resolveProperties
  simp only [bind_pure_comp, hbranch, hbranches, hown, bind_map_left, map_bind,
    Functor.map_map, Merged.absorbAll_append, Merged.absorbAll_flatten, Merged.absorbAll_cons,
    Merged.absorbAll_nil, Merged.absorb_schema]

theorem callsWithin_flattens (depth : Nat) :
    (registry.callsWithin noCalls depth).Flattens (registry.flattenWithin depth) := by
  induction depth with
  | zero =>
    intro trail schema pointer pos merged
    simp only [callsWithin, mergeWithin]
    rfl
  | succ depth ih =>
    intro trail schema pointer pos merged
    rw [callsWithin_succ]
    exact mergeSchema_eq_flatten ih

end Registry

end ApiAtlas
