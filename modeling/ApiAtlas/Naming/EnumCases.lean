import ApiAtlas.Model.Basic
import ApiAtlas.Naming.Identifier

namespace ApiAtlas

/-- The name of a value; no value for the case of all others. -/
structure EnumCase where
  identifier : String
  value : Option String
deriving Repr, DecidableEq

namespace EnumModel

/-- The name of the case for other values. -/
def customSegment : String := "Custom"

/-- The identifier that a value asks for. -/
def caseBase (settings : NamingSettings) (value : String) : String :=
  if (sanitize value).isEmpty then renderSegments settings ["Empty"]
  else renderSegments settings [value]

/-- The identifier, or the first numbered one that is free. Among one more number than there are
identifiers taken, one is. -/
def freeCase (taken : List String) (base : String) : String :=
  if taken.contains base then (firstFree taken base 2 (taken.length + 1)).getD base else base

/-- Cases for identifiers and their values, one after the other. -/
def nameCases (taken : List String) : List (String × Option String) → List EnumCase
  | [] => []
  | (base, value) :: rest =>
    let identifier := freeCase taken base
    ⟨identifier, value⟩ :: nameCases (identifier :: taken) rest

/-- The cases of an enum in the order of its values. -/
def cases (settings : NamingSettings) (model : EnumModel) : List EnumCase :=
  let known := model.values.map fun value => (caseBase settings value, some value)
  let custom := if model.isOpen then [(renderSegments settings [customSegment], none)] else []
  nameCases [] (known ++ custom)

end EnumModel

end ApiAtlas
