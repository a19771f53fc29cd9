import ApiAtlas.Route.Basic
import ApiAtlas.Settings

namespace ApiAtlas

/-- The verb of a method; a `get` of a path that does not end in a parameter lists. -/
def Method.verb (method : Method) (endsWithParameter : Bool) : String :=
  match method with
  | .get => if endsWithParameter then "get" else "list"
  | .post => "create"
  | .put => "update"
  | .delete => "delete"
  | .patch => "patch"
  | .options => "options"
  | .head => "head"
  | .trace => "trace"

/-- The singular of a word by its ending. -/
def singular (word : List Char) : List Char :=
  let ends (suffix : String) : Bool := suffix.toList.isSuffixOf word
  if ends "ies" && 3 < word.length then word.dropLast.dropLast.dropLast ++ ['y']
  else if ends "ses" || ends "xes" || ends "zes" then word.dropLast.dropLast
  else if ends "s" && !ends "ss" && 1 < word.length then word.dropLast
  else word

/-- A segment that is a parameter. -/
def isParameterSegment (segment : List Char) : Bool :=
  segment.head? == some '\x7b' && segment.getLast? == some '\x7d'

/-- The words of a path's segments, the last one in the singular if `single`. -/
def resourceWords (single : Bool) : List (List Char) → List Char
  | [] => []
  | [last] => Casing.pascal.apply (if single then singular last else last)
  | segment :: next :: rest =>
    Casing.pascal.apply segment ++ resourceWords single (next :: rest)

/-- The name of an operation by its method and path. -/
def routeName (method : Method) (path : String) : String :=
  let segments := runs (· = '/') path.toList
  let resources := segments.filter fun segment => !isParameterSegment segment
  let endsWithParameter := segments.getLast?.any isParameterSegment
  method.verb endsWithParameter ++ String.ofList (resourceWords endsWithParameter resources)

/-- The name that an operation is known by. -/
def operationName (settings : NamingSettings) (method : Method) (path : String)
    (operation : Operation) : String :=
  let raw := match settings.operationNaming, operation.operationId with
    | .byOperationId, some id => id
    | _, _ => routeName method path
  (Entries.get? settings.aliases raw).getD raw

end ApiAtlas
