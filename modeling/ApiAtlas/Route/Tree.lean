import ApiAtlas.Route.Basic
import ApiAtlas.Settings
import ApiAtlas.Text.Pieces

namespace ApiAtlas

/-- A path without its parameters: each `\x7b` that some `\x7d` follows is dropped with all up to
the first of these. `inside` says that one is being dropped. -/
def dropParameters (inside : Bool) : List Char → List Char
  | [] => []
  | c :: cs =>
    if inside then dropParameters (c ≠ '\x7d') cs
    else if c = '\x7b' ∧ '\x7d' ∈ cs then dropParameters true cs
    else c :: dropParameters false cs

/-- The segments that remain of a path without its parameters. -/
def literalSegments (path : String) : List String :=
  (runs (· = '/') (dropParameters false path.toList)).map String.ofList

/-- Items of one segment, and the groups below it. -/
inductive Group (α : Type)
  | mk (name : String) (items : List α) (nested : List (Group α))
deriving Repr

namespace Group

variable {α : Type}

/-- The segment. -/
def name : Group α → String
  | .mk name _ _ => name

/-- The items of the group itself. -/
def items : Group α → List α
  | .mk _ items _ => items

/-- The groups one level below. -/
def nested : Group α → List (Group α)
  | .mk _ _ nested => nested

/-- Change the group of a name; if there is none, change an empty one and put it last. -/
def updateNamed (name : String) (change : Group α → Group α) : List (Group α) → List (Group α)
  | [] => [change (.mk name [] [])]
  | group :: rest =>
    if group.name = name then change group :: rest else group :: updateNamed name change rest

/-- Put an item at the end of the group that a key leads to, below some groups. -/
def place (item : α) : List String → List (Group α) → List (Group α)
  | [], groups => groups
  | [name], groups =>
    updateNamed name (fun g => .mk g.name (g.items ++ [item]) g.nested) groups
  | name :: next :: rest, groups =>
    updateNamed name (fun g => .mk g.name g.items (place item (next :: rest) g.nested)) groups

/-- The group of a name. -/
def named? (name : String) (groups : List (Group α)) : Option (Group α) :=
  groups.find? (·.name == name)

/-- The group that a key leads to. -/
def descend? : List String → List (Group α) → Option (Group α)
  | [], _ => none
  | [name], groups => named? name groups
  | name :: next :: rest, groups =>
    (named? name groups).bind fun group => descend? (next :: rest) group.nested

mutual

/-- The items of a group and of those below it, a group before its nested ones. -/
def all : Group α → List α
  | .mk _ items nested => items ++ allOf nested

/-- The items of some groups in order. -/
def allOf : List (Group α) → List α
  | [] => []
  | group :: rest => group.all ++ allOf rest

end

mutual

/-- The number of groups from this one down. -/
def size : Group α → Nat
  | .mk _ _ nested => sizeOfAll nested + 1

/-- The number of groups from these down. -/
def sizeOfAll : List (Group α) → Nat
  | [] => 0
  | group :: rest => group.size + sizeOfAll rest

end

end Group

/-- The tree: items without a segment, and the groups of the first segments. -/
structure Root (α : Type) where
  name : String
  items : List α
  groups : List (Group α)
deriving Repr

namespace Root

variable {α : Type}

/-- Put an item where its key leads. -/
def place (key : α → List String) (root : Root α) (item : α) : Root α :=
  match key item with
  | [] => { root with items := root.items ++ [item] }
  | segments => { root with groups := Group.place item segments root.groups }

/-- The tree of some items. -/
def build (name : String) (key : α → List String) (items : List α) : Root α :=
  items.foldl (place key) ⟨name, [], []⟩

/-- All items, a group before its nested ones. -/
def all (root : Root α) : List α := root.items ++ Group.allOf root.groups

end Root

/-- The key of a route: the literal segments of its path down to the deepest level of groups. -/
def Route.key (settings : RouteSettings) (route : Route) : List String :=
  (literalSegments route.path).take settings.maxDepth

/-- The tree of some routes. -/
def RouteSettings.tree (settings : RouteSettings) (name : String) (routes : List Route) :
    Root Route :=
  Root.build name (Route.key settings) routes

end ApiAtlas
