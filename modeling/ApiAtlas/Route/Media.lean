import ApiAtlas.Text.Pieces

namespace ApiAtlas.Media

/-- The type without parameters. -/
def essence (media : String) : List Char :=
  trimBlanks (media.toList.takeWhile (· ≠ ';'))

/-- The type is this one, up to the case of ASCII letters. -/
def isType (media type : String) : Bool := sameLetters (essence media) type.toList

/-- JSON, or a type whose name ends in `+json`. -/
def isJson (media : String) : Bool :=
  isType media "application/json" || "+json".toList.isSuffixOf (essence media)

end ApiAtlas.Media
