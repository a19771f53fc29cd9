import ApiAtlas.Model.Context
import ApiAtlas.Route.Status

namespace ApiAtlas

/-- A position that may need a name. -/
inductive Site
  | component (name : String)
  | property (parent : Context) (name : String)
  | case (parent : Context) (label : String)
  | requestBody (operation : String)
  | formField (operation field : String)
  /-- `primary` for the first response of an operation. -/
  | response (operation : String) (status : Status) (primary : Bool)
  | parameter (operation name : String)
deriving Repr

namespace Site

/-- The segment of a request body. -/
def requestSegment : String := "Request"

/-- The segment of a response, to which all but the first add their status. -/
def responseSegment : String := "Response"

/-- The context of a site. -/
def context : Site → Context
  | .component name => .named name
  | .property parent name => parent.nest name
  | .case parent label => parent.nest label
  | .requestBody operation => (Context.named operation).nest requestSegment
  | .formField operation field => ((Context.named operation).nest requestSegment).nest field
  | .response operation status primary =>
    (Context.named operation).nest
      (if primary then responseSegment else responseSegment ++ status.text)
  | .parameter operation name => (Context.named operation).nest name

end Site

end ApiAtlas
