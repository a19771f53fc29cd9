import ApiAtlas.Reference
import ApiAtlas.Route.Basic

namespace ApiAtlas

/-- A unit that is kept or left out as a whole. -/
inductive Source
  | component (name : String)
  | route (method : Method) (path : String)
deriving Repr, DecidableEq, Inhabited

/-- The unit as a line of the report starts with it. -/
def Source.text : Source → String
  | .component name => Section.schemas.pointer name
  | .route method path => method.name ++ " " ++ path

/-- A unit that was left out, and why. -/
structure ReportEntry where
  source : Source
  error : ResolveError
deriving Repr, DecidableEq, Inhabited

/-- The line of an entry. -/
def ReportEntry.text (entry : ReportEntry) : String :=
  entry.source.text ++ ": " ++ entry.error.message

/-- The units that were left out, in the order of the document. -/
abbrev Report := List ReportEntry

namespace Report

/-- The entries of one operation. -/
def forRoute (report : Report) (method : Method) (path : String) : List ReportEntry :=
  report.filter fun entry => entry.source == .route method path

/-- One line for each entry. -/
def text (report : Report) : String :=
  String.join (report.map fun entry => entry.text ++ "\n")

end Report

end ApiAtlas
