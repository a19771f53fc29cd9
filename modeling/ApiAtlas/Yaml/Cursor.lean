namespace ApiAtlas.Yaml

/-- A line break. -/
def isBreak (c : Char) : Bool :=
  c == '\n' || c == '\r' || c == '\u0085' || c == '\u2028' || c == '\u2029'

/-- A space or a tab. -/
def isGap (c : Char) : Bool := c == ' ' || c == '\t'

/-- A gap, a line break, or the end of the text comes next. -/
def endsWord : List Char → Bool
  | [] => true
  | c :: _ => isGap c || isBreak c

/-- A line that starts with `---` or `...` on its own comes next. -/
def atDocumentMark : List Char → Bool
  | '-' :: '-' :: '-' :: rest => endsWord rest
  | '.' :: '.' :: '.' :: rest => endsWord rest
  | _ => false

/-- A character that a text may hold. -/
def isPrintable (c : Char) : Bool :=
  let n := c.toNat
  c == '\t' || c == '\n' || c == '\r' || (0x20 ≤ n && n ≤ 0x7E) || n == 0x85 ||
    (0xA0 ≤ n && n ≤ 0xD7FF) || (0xE000 ≤ n && n ≤ 0xFFFD) || 0x10000 ≤ n

/-- The length of a text in UTF-8. -/
def byteCount (text : List Char) : Nat := (String.ofList text).utf8ByteSize

/-- What is left of a text, and how much of it was passed: bytes of UTF-8 in all, characters on the
last line. -/
structure Cursor where
  rest : List Char
  bytes : Nat := 0
  line : Nat := 0
  column : Nat := 0
deriving Repr, Inhabited

namespace Cursor

/-- Pass some characters of a line. -/
def skip (cursor : Cursor) (count : Nat) : Cursor :=
  { cursor with
    rest := cursor.rest.drop count
    bytes := cursor.bytes + byteCount (cursor.rest.take count)
    column := cursor.column + count }

/-- Pass characters of a line down to `rest`. -/
def skipTo (cursor : Cursor) (rest : List Char) : Cursor :=
  cursor.skip (cursor.rest.length - rest.length)

/-- Pass a line break, and the character that it counts as: of the usual breaks a line feed. -/
def takeBreak (cursor : Cursor) : List Char × Cursor :=
  match cursor.rest with
  | '\r' :: '\n' :: rest => (['\n'], ⟨rest, cursor.bytes + 2, cursor.line + 1, 0⟩)
  | c :: rest =>
    let next : Cursor := ⟨rest, cursor.bytes + c.utf8Size, cursor.line + 1, 0⟩
    if c == '\u2028' || c == '\u2029' then ([c], next)
    else if isBreak c then (['\n'], next)
    else ([], cursor)
  | [] => ([], cursor)

/-- Pass the gaps of a line. -/
def skipGaps (cursor : Cursor) : Cursor := cursor.skipTo (cursor.rest.dropWhile isGap)

/-- Pass a comment, if one comes next. -/
def skipComment (cursor : Cursor) : Cursor :=
  if cursor.rest.head? == some '#' then
    cursor.skipTo (cursor.rest.dropWhile fun c => !isBreak c)
  else cursor

end Cursor

end ApiAtlas.Yaml
