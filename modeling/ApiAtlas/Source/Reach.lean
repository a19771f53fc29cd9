import ApiAtlas.Source.Fields

namespace ApiAtlas

/-- The parts of a node that its reader goes into. -/
inductive Reach
  /-- All of it. -/
  | whole
  /-- The members of these names, each so far. -/
  | record (fields : List (String × Reach))
  /-- The value of every member, so far. -/
  | entries (each : Reach)
  /-- Every item, so far. -/
  | items (each : Reach)
deriving Repr, Inhabited

namespace Reach

/-- The members of some names, each of them whole. -/
def members (names : List String) : Reach := .record (names.map (·, .whole))

/-- The declared fields, each of them whole. -/
def declared (fields : List Field) : Reach := .members (fields.map Field.name)

/-- How far the reader goes into an item. -/
def item : Reach → Reach
  | .items each => each
  | _ => .whole

/-- How far the reader goes into the member of a key, by its name if it is a text; `none` if the
reader passes over it. -/
def member? : Reach → Option String → Option Reach
  | .record fields, name => name.bind (List.lookup · fields)
  | .entries each, _ => some each
  | _, _ => some .whole

end Reach

end ApiAtlas
