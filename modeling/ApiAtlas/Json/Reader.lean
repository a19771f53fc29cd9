import ApiAtlas.Source.Node
import ApiAtlas.Text.Pieces

namespace ApiAtlas.Json

/-- Drop the blanks in front. -/
def skipBlanks : List Char → List Char
  | [] => []
  | c :: cs => if c = ' ' ∨ c = '\n' ∨ c = '\t' ∨ c = '\r' then skipBlanks cs else c :: cs

/-- The value of a hexadecimal digit. -/
def hexValue? (c : Char) : Option Nat :=
  if c.isDigit then some (c.toNat - '0'.toNat)
  else if 'a' ≤ c ∧ c ≤ 'f' then some (c.toNat - 'a'.toNat + 10)
  else if 'A' ≤ c ∧ c ≤ 'F' then some (c.toNat - 'A'.toNat + 10)
  else none

/-- The value of four hexadecimal digits. -/
def hexUnit? (a b c d : Char) : Option Nat := do
  let a ← hexValue? a
  let b ← hexValue? b
  let c ← hexValue? c
  let d ← hexValue? d
  pure (((a * 16 + b) * 16 + c) * 16 + d)

/-- What a letter means after a backslash. -/
def unescape? (c : Char) : Option Char :=
  if c = '"' ∨ c = '\\' ∨ c = '/' then some c
  else if c = 'b' then some '\x08'
  else if c = 'f' then some '\x0c'
  else if c = 'n' then some '\n'
  else if c = 'r' then some '\r'
  else if c = 't' then some '\t'
  else none

/-- The code points and 16-bit units up to the closing quote, and the text after it. -/
def stringUnits : List Char → Option (List Nat × List Char)
  | [] => none
  | '"' :: rest => some ([], rest)
  | '\\' :: 'u' :: a :: b :: c :: d :: rest => do
    let unit ← hexUnit? a b c d
    let (units, rest) ← stringUnits rest
    pure (unit :: units, rest)
  | '\\' :: c :: rest => do
    let c ← unescape? c
    let (units, rest) ← stringUnits rest
    pure (c.toNat :: units, rest)
  | c :: rest =>
    if c = '\\' ∨ c.toNat < 0x20 then none
    else (stringUnits rest).map fun (units, rest) => (c.toNat :: units, rest)

/-- Join each high surrogate with the low one after it; a surrogate on its own is no character. -/
def joinSurrogates : List Nat → Option (List Char)
  | [] => some []
  | [n] => if 0xD800 ≤ n ∧ n ≤ 0xDFFF then none else some [Char.ofNat n]
  | n :: m :: rest =>
    if 0xD800 ≤ n ∧ n ≤ 0xDBFF then
      if 0xDC00 ≤ m ∧ m ≤ 0xDFFF then
        (joinSurrogates rest).map
          (Char.ofNat (0x10000 + (n - 0xD800) * 0x400 + (m - 0xDC00)) :: ·)
      else none
    else if 0xDC00 ≤ n ∧ n ≤ 0xDFFF then none
    else (joinSurrogates (m :: rest)).map (Char.ofNat n :: ·)

/-- The scalar of a string. -/
def stringScalar (units : List Nat) : Scalar :=
  match joinSurrogates units with
  | some cs => { text := some (String.ofList cs), datum := some (.string (String.ofList cs)) }
  | none => {}

/-- The value of a decimal digit. -/
def digitValue (c : Char) : Nat := c.toNat - '0'.toNat

/-- The digits in front, and the text after them. -/
def takeDigits (cs : List Char) : List Nat × List Char :=
  ((cs.takeWhile Char.isDigit).map digitValue, cs.dropWhile Char.isDigit)

/-- A decimal as a scalar: a whole number where 64 bits hold it, else binary64. `isWhole` says that
neither point nor exponent was written. Minus zero is not a whole number. -/
def numberScalar (isWhole : Bool) (d : Decimal) : Scalar :=
  let n := digitsValue d.whole
  if isWhole ∧ ¬d.negative ∧ n < Nat.pow 2 64 then { datum := some (.natural n) }
  else if isWhole ∧ d.negative ∧ n ≠ 0 ∧ n ≤ Nat.pow 2 63 then { datum := some (.negated n) }
  else match d.stepwise with
    | some x => { datum := some (.float (some x)) }
    | none => {}

/-- Whether a minus sign stands in front, and the text after it. -/
def takeMinus : List Char → Bool × List Char
  | '-' :: cs => (true, cs)
  | cs => (false, cs)

/-- Whether the sign in front, if there is one, is a minus sign, and the text after it. -/
def takeSign : List Char → Bool × List Char
  | '-' :: cs => (true, cs)
  | '+' :: cs => (false, cs)
  | cs => (false, cs)

/-- The digits after a point in front, if there is one, and the text after them. -/
def takeFraction? : List Char → Option (Option (List Nat) × List Char)
  | '.' :: cs =>
    let (digits, cs) := takeDigits cs
    if digits.isEmpty then none else some (some digits, cs)
  | cs => some (none, cs)

/-- The exponent in front, if there is one, and the text after it. -/
def takeExponent? : List Char → Option (Option Int × List Char)
  | c :: cs =>
    if c = 'e' ∨ c = 'E' then
      let (minus, cs) := takeSign cs
      let (digits, cs) := takeDigits cs
      if digits.isEmpty then none
      else
        let n : Int := digitsValue digits
        some (some (if minus then -n else n), cs)
    else some (none, c :: cs)
  | [] => some (none, [])

/-- A number, and the text after it. A zero in front of other digits is refused. -/
def number? (cs : List Char) : Option (Scalar × List Char) :=
  let (negative, cs) := takeMinus cs
  let (whole, cs) := takeDigits cs
  if whole.isEmpty ∨ (whole.head? = some 0 ∧ whole.length ≠ 1) then none
  else do
    let (fraction, cs) ← takeFraction? cs
    let (exponent, cs) ← takeExponent? cs
    let decimal := ⟨negative, whole, fraction.getD [], exponent.getD 0⟩
    pure (numberScalar (fraction.isNone && exponent.isNone) decimal, cs)

/-- A collection, if one more may be open. -/
def within (room : Nat) (node : Node) : Node := if room = 0 then .unreadable else node

mutual

/-- A value, and the text after it. `room` more collections may be open, `fuel` bounds the steps. -/
def valueFrom : Nat → Nat → List Char → Option (Node × List Char)
  | 0, _, _ => none
  | fuel + 1, room, cs =>
    match skipBlanks cs with
    | '\x7b' :: cs =>
      match skipBlanks cs with
      | '\x7d' :: rest => some (within room (.mapping true []), rest)
      | cs => (membersFrom fuel (room - 1) cs).map fun (members, rest) =>
        (within room (.mapping true members), rest)
    | '[' :: cs =>
      match skipBlanks cs with
      | ']' :: rest => some (within room (.sequence true true []), rest)
      | cs => (itemsFrom fuel (room - 1) cs).map fun (items, rest) =>
        (within room (.sequence true true items), rest)
    | '"' :: cs => (stringUnits cs).map fun (units, rest) => (.scalar (stringScalar units), rest)
    | cs =>
      match afterLead? ['n', 'u', 'l', 'l'] cs with
      | some rest => some (.scalar { datum := some .null, absent := some true }, rest)
      | none =>
        match afterLead? ['t', 'r', 'u', 'e'] cs with
        | some rest => some (.scalar { truth := some true, datum := some (.bool true) }, rest)
        | none =>
          match afterLead? ['f', 'a', 'l', 's', 'e'] cs with
          | some rest => some (.scalar { truth := some false, datum := some (.bool false) }, rest)
          | none => (number? cs).map fun (scalar, rest) => (.scalar scalar, rest)

/-- The items up to the closing bracket, and the text after it. -/
def itemsFrom : Nat → Nat → List Char → Option (List Node × List Char)
  | 0, _, _ => none
  | fuel + 1, room, cs => do
    let (item, cs) ← valueFrom fuel room cs
    match skipBlanks cs with
    | ',' :: cs => (itemsFrom fuel room cs).map fun (items, rest) => (item :: items, rest)
    | ']' :: rest => some ([item], rest)
    | _ => none

/-- The members up to the closing brace, and the text after it. -/
def membersFrom : Nat → Nat → List Char → Option (List (Node × Node) × List Char)
  | 0, _, _ => none
  | fuel + 1, room, cs => do
    let '"' :: cs := skipBlanks cs | none
    let (units, cs) ← stringUnits cs
    let ':' :: cs := skipBlanks cs | none
    let (value, cs) ← valueFrom fuel room cs
    let member := (Node.scalar (stringScalar units), value)
    match skipBlanks cs with
    | ',' :: cs => (membersFrom fuel room cs).map fun (members, rest) => (member :: members, rest)
    | '\x7d' :: rest => some ([member], rest)
    | _ => none

end

/-- The deepest nesting of arrays and objects. -/
def maxDepth : Nat := 127

/-- The node that a whole text holds. A collection takes two steps for its two brackets, an
item one for its comma. -/
def readChars (cs : List Char) : Option Node := do
  let (node, rest) ← valueFrom (cs.length + 1) maxDepth cs
  if skipBlanks rest = [] then some node else none

/-- The node that a JSON text holds, if it keeps the grammar. -/
def readNode (text : String) : Option Node := readChars text.toList

/-- The value that a JSON text holds, members in ascending order of their keys. -/
def read (text : String) : Option Json := (readNode text).bind Node.json?

end ApiAtlas.Json
