import ApiAtlas.Model.Context
import ApiAtlas.Settings

namespace ApiAtlas

/-- Letters and numbers of a name with `_` between its words. -/
def sanitize (name : String) : String := String.ofList (squeeze name.toList)

/-- Make a cased text legal. -/
def finishIdentifier (settings : NamingSettings) (text : String) : String :=
  let text := if text.isEmpty then "Unnamed" else text
  let text := if text.toList.head?.any Char.isDigit then "_" ++ text else text
  if settings.reservedWords.contains text then text ++ "_" else text

/-- The identifier of some segments. -/
def renderSegments (settings : NamingSettings) (segments : List String) : String :=
  let words := (segments.map sanitize).filter fun word => !word.isEmpty
  if words.isEmpty then finishIdentifier settings "Unnamed"
  else
    let joined := "_".intercalate words
    finishIdentifier settings (String.ofList (settings.convention.apply joined.toList))

/-- The identifier of a context. -/
def Context.render (settings : NamingSettings) (context : Context) : String :=
  renderSegments settings context.segments

/-- The first of `base ++ "n"`, `base ++ "n+1"`, … that is not taken, of at most `tries`. -/
def firstFree (taken : List String) (base : String) (n : Nat) : Nat → Option String
  | 0 => none
  | tries + 1 =>
    let attempt := base ++ toString n
    if taken.contains attempt then firstFree taken base (n + 1) tries else some attempt

end ApiAtlas
