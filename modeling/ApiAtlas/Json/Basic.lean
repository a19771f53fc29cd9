import ApiAtlas.Entries
import ApiAtlas.Number.Decimal

namespace ApiAtlas

/-- A JSON value. Whole numbers of at most 64 bits are `int`, all other numbers `float`. -/
inductive Json
  | null
  | bool (b : Bool)
  | int (z : Int)
  | float (x : Binary64)
  | string (s : String)
  | array (items : List Json)
  | object (members : List (String × Json))
deriving Repr, Inhabited

namespace Json

/-- The value is `null`. -/
def isNull : Json → Bool
  | .null => true
  | _ => false

/-- The value is neither an array nor an object. -/
def isScalar : Json → Bool
  | .array _ => false
  | .object _ => false
  | _ => true

/-- The text of a string. -/
def string? : Json → Option String
  | .string s => some s
  | _ => none

/-- The truth value of a boolean. -/
def bool? : Json → Option Bool
  | .bool b => some b
  | _ => none

/-- The number as binary64, rounded if it is a whole number. -/
def binary64? : Json → Option Binary64
  | .int z => Binary64.ofInt z
  | .float x => some x
  | _ => none

/-- The number fits 64 bits with a sign. -/
def fitsInt64 (z : Int) : Bool := -(Nat.pow 2 63 : Int) ≤ z && z < (Nat.pow 2 63 : Int)

/-- The whole number that the value is, be it written as a fraction (`2.0`), if it fits 64 bits
with a sign. -/
def int64? : Json → Option Int
  | .int z => if fitsInt64 z then some z else none
  | .float x => x.toInt?.filter fitsInt64
  | _ => none

/-- Numbers mark a positive exponent. -/
def exponentStyle : ExponentStyle := ⟨true⟩

/-- A hexadecimal digit in lower case. -/
def hexDigit (n : Nat) : Char := Nat.digitChar n

/-- A character as it stands between quotes. -/
def escapeChar (c : Char) : List Char :=
  if c = '"' then ['\\', '"']
  else if c = '\\' then ['\\', '\\']
  else if c = '\x08' then ['\\', 'b']
  else if c = '\x0c' then ['\\', 'f']
  else if c = '\n' then ['\\', 'n']
  else if c = '\r' then ['\\', 'r']
  else if c = '\t' then ['\\', 't']
  else if c.toNat < 0x20 then
    ['\\', 'u', '0', '0', hexDigit (c.toNat / 16), hexDigit (c.toNat % 16)]
  else [c]

/-- A text between quotes. -/
def quote (s : String) : List Char :=
  '"' :: s.toList.flatMap escapeChar ++ ['"']

mutual

/-- The value without blanks. -/
def compact : Json → List Char
  | .null => ['n', 'u', 'l', 'l']
  | .bool true => ['t', 'r', 'u', 'e']
  | .bool false => ['f', 'a', 'l', 's', 'e']
  | .int z => intText z
  | .float x => x.text exponentStyle
  | .string s => quote s
  | .array items => '[' :: compactItems items ++ [']']
  | .object members => '\x7b' :: compactMembers members ++ ['\x7d']

/-- Items with commas between them. -/
def compactItems : List Json → List Char
  | [] => []
  | [v] => v.compact
  | v :: w :: vs => v.compact ++ ',' :: compactItems (w :: vs)

/-- Members with commas between them. -/
def compactMembers : List (String × Json) → List Char
  | [] => []
  | [(k, v)] => quote k ++ ':' :: v.compact
  | (k, v) :: m :: ms => quote k ++ ':' :: v.compact ++ ',' :: compactMembers (m :: ms)

end

/-- A new line and the blanks of a level. -/
def newLine (level : Nat) : List Char := '\n' :: List.replicate (2 * level) ' '

mutual

/-- The value with one item or member a line. -/
def indented (level : Nat) : Json → List Char
  | .null => ['n', 'u', 'l', 'l']
  | .bool true => ['t', 'r', 'u', 'e']
  | .bool false => ['f', 'a', 'l', 's', 'e']
  | .int z => intText z
  | .float x => x.text exponentStyle
  | .string s => quote s
  | .array [] => ['[', ']']
  | .array (v :: vs) => '[' :: indentedItems (level + 1) (v :: vs) ++ newLine level ++ [']']
  | .object [] => ['\x7b', '\x7d']
  | .object (m :: ms) =>
    '\x7b' :: indentedMembers (level + 1) (m :: ms) ++ newLine level ++ ['\x7d']

/-- Items on lines of their own. -/
def indentedItems (level : Nat) : List Json → List Char
  | [] => []
  | [v] => newLine level ++ v.indented level
  | v :: w :: vs => newLine level ++ v.indented level ++ ',' :: indentedItems level (w :: vs)

/-- Members on lines of their own. -/
def indentedMembers (level : Nat) : List (String × Json) → List Char
  | [] => []
  | [(k, v)] => newLine level ++ quote k ++ ':' :: ' ' :: v.indented level
  | (k, v) :: m :: ms =>
    newLine level ++ quote k ++ ':' :: ' ' :: v.indented level ++
      ',' :: indentedMembers level (m :: ms)

end

/-- The value on one line without blanks. -/
def toText (v : Json) : String := String.ofList v.compact

/-- The value on indented lines. -/
def toIndentedText (v : Json) : String := String.ofList (v.indented 0)

end Json

end ApiAtlas
