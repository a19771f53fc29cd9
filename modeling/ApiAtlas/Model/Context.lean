namespace ApiAtlas

/-- A component or operation by its name, or a part of another context. -/
inductive Context
  | named (name : String)
  | nested (segment : String) (parent : Context)
deriving Repr, DecidableEq, Inhabited

namespace Context

/-- A part of this context. -/
def nest (context : Context) (segment : String) : Context := .nested segment context

/-- The segments, outermost last. -/
def path : Context → List String
  | .named name => [name]
  | .nested segment parent => segment :: parent.path

/-- The segments, outermost first. -/
def segments (context : Context) : List String := context.path.reverse

/-- The name of the outermost context. -/
def root : Context → String
  | .named name => name
  | .nested _ parent => parent.root

/-- The segments with points between them. -/
def text (context : Context) : String := ".".intercalate context.segments

/-- The context of some segments, outermost first. -/
def ofSegments : List String → Context
  | [] => .named ""
  | name :: rest => rest.foldl nest (.named name)

end Context

end ApiAtlas
