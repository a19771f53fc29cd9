import ApiAtlas.Model.Basic
import ApiAtlas.Naming.Identifier

namespace ApiAtlas

/-- An identifier that several contexts ask for. -/
structure Collision where
  identifier : String
  contexts : List String
deriving Repr, DecidableEq

/-- The sentence for a collision. -/
def Collision.message (collision : Collision) : String :=
  "identifier " ++ collision.identifier ++ " is ambiguous between: " ++
    ", ".intercalate collision.contexts

/-- The name of a model. -/
structure NameEntry where
  context : Context
  /-- The literal path segments of the operation that the model was made for. -/
  scope : List String
  identifier : String
deriving Repr, DecidableEq

/-- The names by model, in the order of the models. -/
abbrev NameTable := List (ModelId × NameEntry)

/-- The name of a model. -/
def NameTable.identifier? (table : NameTable) (id : ModelId) : Option String :=
  (table.lookup id).map NameEntry.identifier

/-- A model that is to be named, and the name it asks for. -/
structure Candidate where
  id : ModelId
  context : Context
  name : String
deriving Repr, DecidableEq

namespace Candidate

/-- The candidates that ask for a name. -/
def askFor (candidates : List Candidate) (name : String) : List Candidate :=
  candidates.filter (·.name == name)

/-- More than one candidate asks for the name. -/
def isShared (candidates : List Candidate) (name : String) : Bool :=
  1 < (askFor candidates name).length

/-- Every model with the identifier of its context. -/
def ofModels (settings : NamingSettings) (models : Models) : List Candidate :=
  models.nameable.map fun (id, context) => ⟨id, context, context.render settings⟩

/-- A candidate of a shared name, with the last segment of its scope in front. -/
def qualify (settings : NamingSettings) (models : Models) (candidates : List Candidate)
    (candidate : Candidate) : Candidate :=
  if isShared candidates candidate.name then
    match (models.scope candidate.id).getLast? with
    | some ancestor =>
      { candidate with
        name := renderSegments settings (ancestor :: candidate.context.segments) }
    | none => candidate
  else candidate

/-- Every model with the name it asks for in the end. -/
def qualified (settings : NamingSettings) (models : Models) : List Candidate :=
  let candidates := ofModels settings models
  candidates.map (qualify settings models candidates)

/-- The collision over a name. -/
def collision (candidates : List Candidate) (name : String) : Collision :=
  ⟨name, (askFor candidates name).map fun candidate => candidate.context.text⟩

/-- The names that only one candidate asks for. -/
def sole (candidates : List Candidate) : List String :=
  (candidates.map Candidate.name).filter fun name => !isShared candidates name

/-- The identifier of one candidate, given those taken before. -/
def settle (settings : NamingSettings) (candidates : List Candidate) (taken : List String)
    (candidate : Candidate) : Except Collision String :=
  if !isShared candidates candidate.name then .ok candidate.name
  else if settings.strict then .error (collision candidates candidate.name)
  else if !taken.contains candidate.name then .ok candidate.name
  else
    match firstFree taken candidate.name 2 (settings.maxSuffix - 1) with
    | some identifier => .ok identifier
    | none => .error (collision candidates candidate.name)

/-- The identifiers of the candidates one after the other. -/
def settleAll (settings : NamingSettings) (candidates : List Candidate) (taken : List String) :
    List Candidate → Except Collision (List (Candidate × String))
  | [] => .ok []
  | candidate :: rest => do
    let identifier ← settle settings candidates taken candidate
    let others ← settleAll settings candidates (identifier :: taken) rest
    pure ((candidate, identifier) :: others)

end Candidate

/-- The names of all models that need one. Names that only one asks for are taken from the start;
where several ask for one, numbers are put to it from the second on. -/
def Models.assign (settings : NamingSettings) (models : Models) : Except Collision NameTable :=
  let candidates := Candidate.qualified settings models
  let settled := Candidate.settleAll settings candidates (Candidate.sole candidates) candidates
  settled.map fun pairs => pairs.map fun (candidate, identifier) =>
    (candidate.id, ⟨candidate.context, models.scope candidate.id, identifier⟩)

end ApiAtlas
