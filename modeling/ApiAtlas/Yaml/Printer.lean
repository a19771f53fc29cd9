import ApiAtlas.Export
import ApiAtlas.Yaml.Reader

namespace ApiAtlas.Yaml

/-- Numbers do not mark a positive exponent. -/
def exponentStyle : ExponentStyle := ⟨false⟩

/-- A character that may stand in a text without an escape. -/
def needsNoEscape (c : Char) : Bool :=
  let n := c.toNat
  n == 0x0A || (0x20 ≤ n && n ≤ 0x7E) || (0xA0 ≤ n && n ≤ 0xD7FF) ||
    (0xE000 ≤ n && n ≤ 0xFFFD && n != 0xFEFF) || 0x10000 ≤ n

/-- A number in at least `width` hexadecimal digits. -/
def hexText (width n : Nat) : List Char :=
  let digits := (Nat.toDigits 16 n).map Char.toUpper
  List.replicate (width - digits.length) '0' ++ digits

/-- A character between double quotes. -/
def escapeChar (c : Char) : List Char :=
  let short : List (Char × Char) :=
    [('\x00', '0'), ('\x07', 'a'), ('\x08', 'b'), ('\t', 't'), ('\n', 'n'), ('\x0b', 'v'),
      ('\x0c', 'f'), ('\r', 'r'), ('\x1b', 'e'), ('"', '"'), ('\\', '\\'), ('\u0085', 'N'),
      ('\u00a0', '_'), ('\u2028', 'L'), ('\u2029', 'P')]
  match short.lookup c with
  | some letter => if c == '\u00a0' then [c] else ['\\', letter]
  | none =>
    if needsNoEscape c then [c]
    else if c.toNat ≤ 0xFF then '\\' :: 'x' :: hexText 2 c.toNat
    else '\\' :: 'u' :: hexText 4 c.toNat

/-- Between double quotes. -/
def doubleQuoted (text : List Char) : List Char := '"' :: text.flatMap escapeChar ++ ['"']

/-- An indicator where a plain scalar stands on its own; `first` for its first character, `before`
and `after` for what surrounds the character. -/
def isIndicator (first : Bool) (before after : Option Char) (c : Char) : Bool :=
  let separates (d : Option Char) : Bool := d.all fun d => isGap d || isBreak d
  if first then
    "#,[]\x7b\x7d&*!|>'\"%@".toList.contains c || c == '\x60' ||
      ("?:-".toList.contains c && separates after)
  else (c == ':' && separates after) || (c == '#' && separates before)

/-- Some character after `before` is an indicator. -/
def hasIndicator (before : Option Char) : List Char → Bool
  | [] => false
  | c :: rest =>
    isIndicator before.isNone before rest.head? c || hasIndicator (some c) rest

/-- A plain scalar of this text reads back as the text. -/
def readsAsText (text : String) : Bool :=
  !hasLeadingZero text.toList &&
    match plainDatum text with
    | some (.string _) => true
    | _ => false

/-- Blanks up to a column. -/
def margin (column : Nat) : List Char := List.replicate column ' '

/-- A text with blanks up to a column in front of each line that is not empty, the first one only if
`fresh`. -/
def withMargin (column : Nat) : Bool → List Char → List Char
  | _, [] => []
  | fresh, c :: cs =>
    if isBreak c then c :: withMargin column true cs
    else (if fresh then margin column else []) ++ c :: withMargin column false cs

/-- Between single quotes, lines after the first at a column. -/
def singleQuoted (column : Nat) (text : List Char) : List Char :=
  let doubled := text.flatMap fun c => if c == '\'' then ['\'', '\''] else [c]
  let last := if text.getLast?.any isBreak then margin column else []
  '\'' :: withMargin column false doubled ++ last ++ ['\'']

/-- A literal block with its lines at a column. The number tells the reader the width of the margin
where the text starts with a blank or a break; the sign says that the text does not end with a
break, or ends with more than one. -/
def literalBlock (column : Nat) (text : List Char) : List Char :=
  let width := if text.head?.any fun c => c == ' ' || isBreak c then ['2'] else []
  let chomping := match text.reverse with
    | [] => ['-']
    | c :: before =>
      if !isBreak c then ['-'] else if before.head?.all isBreak then ['+'] else []
  '|' :: width ++ chomping ++ '\n' :: withMargin column true text

/-- Some character with the first property comes right before one with the second. -/
def hasAdjacent (p q : Char → Bool) (text : List Char) : Bool :=
  (text.zip (text.drop 1)).any fun (c, d) => p c && q d

/-- A text whose lines after the first would stand at a column: a literal block if it has several
lines, plain if it reads back as itself, else quoted. -/
def scalarAt (column : Nat) (text : String) : List Char :=
  let cs := text.toList
  let isBlank (c : Char) : Bool := c == ' '
  let isSpoiled := cs.any (fun c => !needsNoEscape c) || hasAdjacent isBlank isBreak cs
  if cs.contains '\n' then
    if isSpoiled || cs.getLast?.any isBlank then doubleQuoted cs else literalBlock column cs
  else if isSpoiled || hasAdjacent isBreak isBlank cs then doubleQuoted cs
  else
    let hasEdge := cs.head?.any isBlank || cs.getLast?.any isBlank
    let isMarked := ['-', '-', '-'].isPrefixOf cs || ['.', '.', '.'].isPrefixOf cs
    if readsAsText text && !hasEdge && !isMarked && !cs.any isBreak && !hasIndicator none cs then cs
    else singleQuoted column cs

/-- End the line, unless the text has ended it. -/
def endLine (text : List Char) : List Char :=
  if text.getLast?.any isBreak then text else text ++ ['\n']

/-- A key that stands before its colon on one line. -/
def isShortKey (key : String) : Bool := key.utf8ByteSize ≤ 128 && !key.toList.any isBreak

/-- A key at a column, with its colon. A key that is not short has a question mark in front and its
colon on a line of its own. -/
def keyAt (column : Nat) (key : String) : List Char :=
  if isShortKey key then scalarAt (column + 2) key ++ [':']
  else '?' :: ' ' :: endLine (scalarAt (column + 2) key) ++ margin column ++ [':']

/-- A block whose lines stand at a column, in the place of a value: on lines of its own, or from the
line of the dash or colon on that stands two columns to the left. -/
def blockAt (sameLine : Bool) (column : Nat) (block : List Char) : List Char :=
  if sameLine then ' ' :: block.drop column else '\n' :: block

mutual

/-- Data in the place of a value: what follows the colon or dash at `column`. `sameLine` says that a
collection starts on the same line. A list on lines of its own stands at `column`, anything else two
columns further right. -/
def valueAt (sameLine : Bool) (column : Nat) : PlainData → List Char
  | .list (item :: items) =>
    let column := if sameLine then column + 2 else column
    blockAt sameLine column (itemsAt column (item :: items))
  | .record (field :: fields) =>
    blockAt sameLine (column + 2) (membersAt (column + 2) (field :: fields))
  | .map (entry :: entries) =>
    blockAt sameLine (column + 2) (membersAt (column + 2) (entry :: entries))
  | .table (row :: rows) => blockAt sameLine (column + 2) (rowsAt (column + 2) (row :: rows))
  | .tagged tag payload => ' ' :: '!' :: tag.toList ++ valueAt false column payload
  | .null => " null\n".toList
  | .bool b => if b then " true\n".toList else " false\n".toList
  | .int z => ' ' :: intText z ++ ['\n']
  | .float x => ' ' :: x.text exponentStyle ++ ['\n']
  | .string s => ' ' :: endLine (scalarAt (column + 2) s)
  | .list [] => " []\n".toList
  | .record [] => " \x7b\x7d\n".toList
  | .map [] => " \x7b\x7d\n".toList
  | .table [] => " \x7b\x7d\n".toList

/-- The items of a list, each on a line of its own. -/
def itemsAt (column : Nat) : List PlainData → List Char
  | [] => []
  | item :: items => margin column ++ '-' :: valueAt true column item ++ itemsAt column items

/-- The members of a mapping, each on a line of its own. -/
def membersAt (column : Nat) : List (String × PlainData) → List Char
  | [] => []
  | (key, value) :: rest =>
    margin column ++ keyAt column key ++ valueAt (!isShortKey key) column value ++
      membersAt column rest

/-- The rows of a table, each on a line of its own. -/
def rowsAt (column : Nat) : List (Nat × PlainData) → List Char
  | [] => []
  | (key, value) :: rest =>
    margin column ++ natDigits key ++ ':' :: valueAt false column value ++ rowsAt column rest

end

/-- A record as a document of its own. -/
def documentText (fields : List (String × PlainData)) : String :=
  String.ofList (membersAt 0 fields)

end ApiAtlas.Yaml
