import ApiAtlas.Proofs.EntryLookup
import ApiAtlas.Resolve.Operation

namespace ApiAtlas

/-- The same at the place that `move` gives. -/
def Resolved.renumber (move : ModelId → ModelId) : Resolved → Resolved
  | .ref name id => .ref name (move id)
  | .value id => .value (move id)

def Property.renumber (move : ModelId → ModelId) (property : Property) : Property :=
  { property with model := property.model.renumber move }

def Case.renumber (move : ModelId → ModelId) (case : Case) : Case :=
  { case with model := case.model.renumber move }

def Collection.renumber (move : ModelId → ModelId) : Collection → Collection
  | .list element => .list (element.renumber move)
  | .set element => .set (element.renumber move)
  | .map element => .map (element.renumber move)

def Model.renumber (move : ModelId → ModelId) : Model → Model
  | .collection c => .collection (c.renumber move)
  | .object o => .object { o with properties := o.properties.map (Property.renumber move) }
  | .union u => .union { u with cases := u.cases.map (Case.renumber move) }
  | model => model

def Merged.renumber (move : ModelId → ModelId) (merged : Merged) : Merged :=
  { merged with properties := merged.properties.map fun (name, property) =>
      (name, property.renumber move) }

def Input.renumber (move : ModelId → ModelId) (input : Input) : Input :=
  { input with model := input.model.renumber move }

def FormField.renumber (move : ModelId → ModelId) (field : FormField) : FormField :=
  { field with model := field.model.renumber move }

def Payload.renumber (move : ModelId → ModelId) : Payload → Payload
  | .json model => .json (model.renumber move)
  | .xml model => .xml (model.renumber move)
  | .octetStream => .octetStream
  | .multipart model fields =>
    .multipart (model.map (Resolved.renumber move)) (fields.map (FormField.renumber move))
  | .other model => .other (model.map (Resolved.renumber move))

def Body.renumber (move : ModelId → ModelId) (body : Body) : Body :=
  { body with payload := body.payload.renumber move }

def Bodies.renumber (move : ModelId → ModelId) (bodies : Bodies) : Bodies :=
  { bodies with types := bodies.types.map fun (name, body) => (name, body.renumber move) }

def ReturnType.renumber (move : ModelId → ModelId) (type : ReturnType) : ReturnType :=
  { type with model := type.model.map (Resolved.renumber move) }

def Returns.renumber (move : ModelId → ModelId) (returns : Returns) : Returns :=
  { returns with types := returns.types.map fun (status, type) => (status, type.renumber move) }

def Route.renumber (move : ModelId → ModelId) (route : Route) : Route :=
  { route with
    body := route.body.renumber move
    input := route.input.map (Input.renumber move)
    returns := route.returns.renumber move }

variable {move : ModelId → ModelId}

@[simp] theorem Resolved.id_renumber (resolved : Resolved) :
    (resolved.renumber move).id = move resolved.id := by
  cases resolved <;> rfl

@[simp] theorem resolved_renumber_id : Resolved.renumber id = id := by
  funext resolved
  cases resolved <;> rfl

@[simp] theorem Property.renumber_id : Property.renumber id = id := by
  funext property
  simp [Property.renumber]

@[simp] theorem Case.renumber_id : Case.renumber id = id := by
  funext case
  simp [Case.renumber]

@[simp] theorem Model.renumber_id : Model.renumber id = id := by
  funext model
  cases model with
  | collection c => cases c <;> simp [Model.renumber, Collection.renumber]
  | _ => simp [Model.renumber]

@[simp] theorem Merged.renumber_id : Merged.renumber id = id := by
  funext merged
  simp [Merged.renumber]

@[simp] theorem Input.renumber_id : Input.renumber id = id := by
  funext input
  simp [Input.renumber]

@[simp] theorem FormField.renumber_id : FormField.renumber id = id := by
  funext field
  simp [FormField.renumber]

@[simp] theorem Body.renumber_id : Body.renumber id = id := by
  funext body
  obtain ⟨payload, extensions⟩ := body
  cases payload <;> simp [Body.renumber, Payload.renumber]

@[simp] theorem Bodies.renumber_id : Bodies.renumber id = id := by
  funext bodies
  simp [Bodies.renumber]

@[simp] theorem ReturnType.renumber_id : ReturnType.renumber id = id := by
  funext type
  simp [ReturnType.renumber]

@[simp] theorem Returns.renumber_id : Returns.renumber id = id := by
  funext returns
  simp [Returns.renumber]

@[simp] theorem Route.renumber_id : Route.renumber id = id := by
  funext route
  simp [Route.renumber]

namespace Merged

theorem renumber_insert (merged : Merged) (property : Property) :
    (merged.insert property).renumber move =
      (merged.renumber move).insert (property.renumber move) := by
  simp only [insert, renumber, Entries.set_map, Entries.get?_map]
  have hany : (((Entries.get? merged.properties property.name).map (Property.renumber move)).any
      Property.required) = (Entries.get? merged.properties property.name).any Property.required := by
    cases Entries.get? merged.properties property.name <;> rfl
  have hname : (property.renumber move).name = property.name := rfl
  rw [hname, hany]
  rfl

theorem renumber_foldl_insert (properties : List Property) : ∀ merged : Merged,
    (properties.foldl insert merged).renumber move =
      (properties.map (Property.renumber move)).foldl insert (merged.renumber move) := by
  induction properties with
  | nil => exact fun _ => rfl
  | cons property rest ih =>
    intro merged
    rw [List.foldl_cons, ih, renumber_insert, List.map_cons, List.foldl_cons]

theorem finish_renumber (merged : Merged) :
    (merged.renumber move).finish = merged.finish.map (Property.renumber move) := by
  simp only [finish, renumber, List.map_map]
  rfl

end Merged

theorem Model.renumber_of_children {model : Model} (h : model.children = []) :
    model.renumber move = model := by
  cases model with
  | collection c => simp [children] at h
  | object o =>
    obtain ⟨context, description, properties, additional⟩ := o
    have hp : properties = [] := by simpa [children] using h
    subst hp
    rfl
  | union u =>
    obtain ⟨context, description, cases, discriminator, fallback⟩ := u
    have hc : cases = [] := by simpa [children] using h
    subst hc
    rfl
  | _ => rfl

end ApiAtlas
