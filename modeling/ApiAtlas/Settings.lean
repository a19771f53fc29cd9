import ApiAtlas.Source.Reach
import ApiAtlas.Text.Words

namespace ApiAtlas

/-- How an operation gets the name it is known by. -/
inductive OperationNaming
  /-- Its `operationId`, if it has one. -/
  | byOperationId
  /-- Its method and path. -/
  | byRoute
deriving Repr, DecidableEq, Inhabited

/-- How identifiers are written and told apart. -/
structure NamingSettings where
  convention : Casing := .pascal
  /-- Identifiers that get a `_` at their end. -/
  reservedWords : List String := []
  /-- Two models of one name are an error. -/
  strict : Bool := false
  /-- The last number tried at the end of a name. -/
  maxSuffix : Nat := 999
  operationNaming : OperationNaming := .byOperationId
  /-- Other names for operations. -/
  aliases : Entries String := []
deriving Repr, DecidableEq, Inhabited

/-- Which enums take values beside the listed ones. -/
structure EnumSettings where
  /-- Extensions that mark an enum as open. -/
  openExtensions : List String := ["x-extensible-enum", "x-open-enum"]
deriving Repr, DecidableEq, Inhabited

/-- How operations are grouped. -/
structure RouteSettings where
  /-- The name of the root, if it is not the title of the document. -/
  rootName : Option String := none
  /-- The deepest level of groups. -/
  maxDepth : Nat := 32
deriving Repr, DecidableEq, Inhabited

/-- All settings. -/
structure Settings where
  naming : NamingSettings := {}
  enums : EnumSettings := {}
  routes : RouteSettings := {}
deriving Repr, DecidableEq, Inhabited

namespace Settings

/-- The setting that a scalar chooses by its name. -/
def choiceOf {β : Type} (table : List (String × β)) (node : Node) : Option β :=
  node.choice?.bind fun name => table.lookup name

/-- A natural number below a bound. -/
def countBelow (bound : Nat) (node : Node) : Option Nat :=
  node.count?.filter (· < bound)

/-- The value of `naming`. -/
def namingOfNode? (node : Node) : Option NamingSettings := do
  let fields ← node.members?
  pure {
    convention := ← Fields.withDefault fields "convention"
      (choiceOf [("pascal", .pascal), ("camel", .camel), ("snake", .snake),
        ("screaming_snake", .screamingSnake)]) .pascal
    reservedWords := ← Fields.withDefault fields "reserved_words" (Node.listOf Node.text?) []
    strict := ← Fields.withDefault fields "strict" Node.truth? false
    maxSuffix := ← Fields.withDefault fields "max_suffix" (countBelow (Nat.pow 2 32)) 999
    operationNaming := ← Fields.withDefault fields "operation_naming"
      (choiceOf [("use_operation_id", .byOperationId), ("use_route_based", .byRoute)])
      .byOperationId
    aliases := ← Fields.withDefault fields "aliases" (Node.entriesOf Node.text?) [] }

/-- The value of `enums`. -/
def enumsOfNode? (node : Node) : Option EnumSettings := do
  let fields ← node.members?
  pure {
    openExtensions := ← Fields.withDefault fields "open_extensions" (Node.listOf Node.text?)
      ({} : EnumSettings).openExtensions }

/-- The value of `routes`. -/
def routesOfNode? (node : Node) : Option RouteSettings := do
  let fields ← node.members?
  pure {
    rootName := ← Fields.optional fields "root_name" Node.absent? Node.text?
    maxDepth := ← Fields.withDefault fields "max_depth" (countBelow (Nat.pow 2 64)) 32 }

/-- The settings that a node holds. -/
def ofNode? (node : Node) : Option Settings := do
  let fields ← node.members?
  pure {
    naming := ← Fields.withDefault fields "naming" namingOfNode? {}
    enums := ← Fields.withDefault fields "enums" enumsOfNode? {}
    routes := ← Fields.withDefault fields "routes" routesOfNode? {} }

/-- How far reading goes into settings. -/
def reach : Reach :=
  .record [
    ("naming", .members ["convention", "reserved_words", "strict", "max_suffix",
      "operation_naming", "aliases"]),
    ("enums", .members ["open_extensions"]),
    ("routes", .members ["root_name", "max_depth"])]

end Settings

end ApiAtlas
