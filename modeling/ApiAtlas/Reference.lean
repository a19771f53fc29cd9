import ApiAtlas.Text.Pieces

namespace ApiAtlas

/-- The sections of a document's components. -/
inductive Section
  | schemas
  | parameters
  | requestBodies
  | responses
deriving Repr, DecidableEq

namespace Section

/-- The member that holds the section. -/
def name : Section → String
  | .schemas => "schemas"
  | .parameters => "parameters"
  | .requestBodies => "requestBodies"
  | .responses => "responses"

/-- The pointer to a component of this name. -/
def pointer (kind : Section) (component : String) : String :=
  "#/components/" ++ kind.name ++ "/" ++ component

end Section

/-- Why a component or operation is left out. `at` is the location of the node at fault. -/
inductive ResolveError
  /-- No component has the name. -/
  | unresolvedRef (reference : String) (location : String)
  /-- The text is no reference into the section that was expected. -/
  | invalidRefFormat (reference : String) (location : String)
  /-- References lead back to a name without a schema of its own on the way. -/
  | circularRef (chain : List String) (location : String)
  /-- The component was left out itself. -/
  | failedRef (reference : String) (location : String)
  /-- The schema has no place among the models. -/
  | schemaShape (reason : String) (location : String)
deriving Repr, DecidableEq, Inhabited

/-- The two families of errors. -/
inductive ErrorFamily
  | reference
  | schemaShape
deriving Repr, DecidableEq

namespace ResolveError

/-- The family of an error. -/
def family : ResolveError → ErrorFamily
  | .schemaShape .. => .schemaShape
  | _ => .reference

/-- The location of the node at fault. -/
def location : ResolveError → String
  | .unresolvedRef _ location => location
  | .invalidRefFormat _ location => location
  | .circularRef _ location => location
  | .failedRef _ location => location
  | .schemaShape _ location => location

/-- The names of a chain with arrows between them. -/
def chainText (chain : List String) : String := " -> ".intercalate chain

/-- The sentence for an error. -/
def message : ResolveError → String
  | .unresolvedRef reference location =>
    "unresolved reference " ++ reference ++ " at " ++ location
  | .invalidRefFormat reference location =>
    "invalid reference format " ++ reference ++ " at " ++ location
  | .circularRef chain location =>
    "reference cycle with no named schema (" ++ chainText chain ++ ") at " ++ location
  | .failedRef reference location =>
    "reference to " ++ reference ++ ", which failed to resolve, at " ++ location
  | .schemaShape reason location =>
    "cannot classify schema at " ++ location ++ ": " ++ reason

end ResolveError

/-- The characters that every reference to a component starts with. -/
def componentsLead : List Char := "#/components/".toList

/-- The component that a reference into `kind` names. -/
def referenceName? (kind : Section) (reference : List Char) : Option (List Char) := do
  let path ← afterLead? componentsLead reference
  let (part, name) ← cutAt? '/' path
  if part = kind.name.toList ∧ name ≠ [] ∧ '/' ∉ name then some name else none

/-- The component that a reference into `kind` names, for a reference found at `location`. -/
def Section.parseName (kind : Section) (reference location : String) :
    Except ResolveError String :=
  match referenceName? kind reference.toList with
  | some name => .ok (String.ofList name)
  | none => .error (.invalidRefFormat reference location)

/-- A member name as it stands in a pointer. -/
def escapeToken (token : String) : String :=
  String.ofList (token.toList.flatMap fun c =>
    if c = '~' then ['~', '0'] else if c = '/' then ['~', '1'] else [c])

/-- The pointer to a member below another pointer; `member` is escaped already. -/
def below (pointer member : String) : String := pointer ++ "/" ++ member

/-- The pointer without its last step. -/
def parentPointer (pointer : String) : String := String.ofList (beforeLast '/' pointer.toList)

end ApiAtlas
