import ApiAtlas.Json.Reader
import ApiAtlas.Yaml.Cursor

namespace ApiAtlas.Yaml

/-- How a scalar is written. -/
inductive ScalarStyle
  | plain
  | singleQuoted
  | doubleQuoted
  | literal
  | folded
deriving Repr, DecidableEq, Inhabited

/-- What separates two words of a scalar. -/
structure Separation where
  blanks : List Char := []
  breaks : List Char := []

/-- The separation as it counts. -/
def Separation.fold (separation : Separation) : List Char :=
  match separation.breaks with
  | [] => separation.blanks
  | ['\n'] => [' ']
  | '\n' :: more => more
  | more => more

/-- Read blanks and breaks. Blanks after a break are dropped; a tab among them left of `indent` is
refused. `broken` says that a break came before. -/
def readSeparation (indent : Int) : Nat → Bool → Separation → Cursor → Option (Separation × Cursor)
  | 0, _, _, _ => none
  | fuel + 1, broken, separation, cursor =>
    match cursor.rest with
    | [] => some (separation, cursor)
    | c :: _ =>
      if isGap c then
        if broken && c == '\t' && (cursor.column : Int) < indent then none
        else
          let separation :=
            if broken then separation
            else { separation with blanks := separation.blanks ++ [c] }
          readSeparation indent fuel broken separation (cursor.skip 1)
      else if isBreak c then
        let (taken, cursor) := cursor.takeBreak
        readSeparation indent fuel true
          { separation with breaks := separation.breaks ++ taken } cursor
      else some (separation, cursor)

/-- An indicator of flow collections. -/
def isFlowIndicator (c : Char) : Bool :=
  c == ',' || c == '[' || c == ']' || c == '\x7b' || c == '\x7d'

/-- The characters of a plain word, and the text after them. In flow collections a colon right
before an indicator is refused. -/
def plainWord (flow : Bool) : List Char → Option (List Char × List Char)
  | [] => some ([], [])
  | c :: cs =>
    if isGap c || isBreak c then some ([], c :: cs)
    else if flow && c == ':' && cs.head?.any fun d => isFlowIndicator d || d == '?' then none
    else if (c == ':' && endsWord cs) || (flow && isFlowIndicator c) then some ([], c :: cs)
    else (plainWord flow cs).map fun (word, rest) => (c :: word, rest)

/-- The rest of a plain scalar: its text, whether a line broke after it, and the place after it.
`pending` separates the text so far from the next word. -/
def plainFrom (flow : Bool) (indent : Int) :
    Nat → List Char → Bool → List Char → Cursor → Option (List Char × Bool × Cursor)
  | 0, _, _, _, _ => none
  | fuel + 1, text, broken, pending, cursor =>
    if (cursor.column == 0 && atDocumentMark cursor.rest) || cursor.rest.head? == some '#' then
      some (text, broken, cursor)
    else do
      let (word, rest) ← plainWord flow cursor.rest
      let cursor := cursor.skipTo rest
      let (text, broken) :=
        if word.isEmpty then (text, broken) else (text ++ pending ++ word, false)
      if rest.isEmpty || !endsWord rest then some (text, broken, cursor)
      else
        let (separation, cursor) ←
          readSeparation indent (rest.length + 1) false {} cursor
        let broken := !separation.breaks.isEmpty
        if !flow && (cursor.column : Int) < indent then some (text, broken, cursor)
        else plainFrom flow indent fuel text broken separation.fold cursor

/-- The value of hexadecimal digits. -/
def hexNumber? (digits : List Char) : Option Nat :=
  digits.foldlM (fun n c => (Json.hexValue? c).map (16 * n + ·)) 0

/-- What an escape stands for, and the text after it. -/
def unescape? : List Char → Option (Char × List Char)
  | [] => none
  | c :: rest =>
    let wide (count : Nat) : Option (Char × List Char) :=
      if rest.length < count then none
      else (hexNumber? (rest.take count)).bind fun n =>
        if n.isValidChar then some (Char.ofNat n, rest.drop count) else none
    match c with
    | '0' => some ('\x00', rest)
    | 'a' => some ('\x07', rest)
    | 'b' => some ('\x08', rest)
    | 't' => some ('\t', rest)
    | '\t' => some ('\t', rest)
    | 'n' => some ('\n', rest)
    | 'v' => some ('\x0b', rest)
    | 'f' => some ('\x0c', rest)
    | 'r' => some ('\r', rest)
    | 'e' => some ('\x1b', rest)
    | ' ' => some (' ', rest)
    | '"' => some ('"', rest)
    | '/' => some ('/', rest)
    | '\\' => some ('\\', rest)
    | 'N' => some ('\u0085', rest)
    | '_' => some ('\u00a0', rest)
    | 'L' => some ('\u2028', rest)
    | 'P' => some ('\u2029', rest)
    | 'x' => wide 2
    | 'u' => wide 4
    | 'U' => wide 8
    | _ => none

/-- The characters of a quoted word, whether an escaped line break ends it, and the text after
it. -/
def quotedWord (single : Bool) : Nat → List Char → Option (List Char × Bool × List Char)
  | 0, _ => none
  | fuel + 1, cs =>
    match cs with
    | [] => some ([], false, [])
    | c :: rest =>
      if isGap c || isBreak c then some ([], false, cs)
      else if single && c == '\'' then
        match rest with
        | '\'' :: rest => (quotedWord single fuel rest).map fun (word, more) => ('\'' :: word, more)
        | _ => some ([], false, cs)
      else if !single && c == '"' then some ([], false, cs)
      else if !single && c == '\\' then
        if rest.head?.any isBreak then some ([], true, rest)
        else do
          let (d, rest) ← unescape? rest
          let (word, more) ← quotedWord single fuel rest
          some (d :: word, more)
      else (quotedWord single fuel rest).map fun (word, more) => (c :: word, more)

/-- The rest of a quoted scalar: its text, and the place after the closing quote. -/
def quotedFrom (single : Bool) : Nat → List Char → Cursor → Option (List Char × Cursor)
  | 0, _, _ => none
  | fuel + 1, text, cursor =>
    if cursor.column == 0 && atDocumentMark cursor.rest then none
    else do
      let (word, escaped, rest) ← quotedWord single (cursor.rest.length + 1) cursor.rest
      let text := text ++ word
      let cursor := cursor.skipTo rest
      let cursor := if escaped then cursor.takeBreak.2 else cursor
      match cursor.rest with
      | [] => none
      | c :: _ =>
        if c == (if single then '\'' else '"') then some (text, cursor.skip 1)
        else
          let (separation, cursor) ←
            readSeparation 0 (cursor.rest.length + 1) escaped {} cursor
          let joint := if escaped then separation.breaks else separation.fold
          quotedFrom single fuel (text ++ joint) cursor

/-- What happens to the breaks at the end of a block scalar. -/
inductive Chomping
  | strip
  | clip
  | keep
deriving DecidableEq

/-- The empty lines before a line of a block scalar, and the indentation, which the first line that
is not empty settles where it is zero. `parent` is the indentation around the scalar. -/
def blockBreaks (parent : Int) :
    Nat → Nat → Nat → List Char → Cursor → Option (Nat × List Char × Cursor)
  | 0, _, _, _, _ => none
  | fuel + 1, indent, widest, breaks, cursor =>
    let spaces := cursor.rest.takeWhile (· == ' ')
    let count :=
      if indent == 0 then spaces.length else min spaces.length (indent - cursor.column)
    let cursor := cursor.skip count
    let widest := max widest cursor.column
    let isOpen := indent == 0 || cursor.column < indent
    if isOpen && cursor.rest.head? == some '\t' then none
    else if cursor.rest.head?.any isBreak then
      let (taken, cursor) := cursor.takeBreak
      blockBreaks parent fuel indent widest (breaks ++ taken) cursor
    else
      let settled := if indent == 0 then max widest (max (parent + 1).toNat 1) else indent
      some (settled, breaks, cursor)

/-- The lines of a block scalar: its text, the break of its last line, the breaks after it, and the
place after these. `lead` is the break before the line, `blank` says that the line before it starts
with a blank. -/
def blockLines (parent : Int) (literal : Bool) (indent : Nat) :
    Nat → List Char → List Char → List Char → Bool → Cursor →
      Option (List Char × List Char × List Char × Cursor)
  | 0, _, _, _, _, _ => none
  | fuel + 1, text, lead, trail, blank, cursor =>
    if cursor.column != indent || cursor.rest.isEmpty then some (text, lead, trail, cursor)
    else do
      let startsBlank := cursor.rest.head?.any isGap
      let joint :=
        if !literal && lead == ['\n'] && !blank && !startsBlank then
          if trail.isEmpty then [' '] else []
        else lead
      let line := cursor.rest.takeWhile fun c => !isBreak c
      let (lead, cursor) := (cursor.skip line.length).takeBreak
      let (_, trail', cursor) ←
        blockBreaks parent (cursor.rest.length + 1) indent 0 [] cursor
      blockLines parent literal indent fuel (text ++ joint ++ trail ++ line) lead trail' startsBlank
        cursor

/-- The indicators after `|` or `>`: chomping and the written indentation, in either order. -/
def blockHeader (cursor : Cursor) : Option (Chomping × Nat × Cursor) :=
  let sign? (c : Char) : Option Chomping :=
    if c == '+' then some .keep else if c == '-' then some .strip else none
  let chomp (cursor : Cursor) : Option (Chomping × Cursor) :=
    (cursor.rest.head?.bind sign?).map (·, cursor.skip 1)
  let width (cursor : Cursor) : Option (Nat × Cursor) :=
    match cursor.rest with
    | c :: _ =>
      if c == '0' then none
      else if c.isDigit then some (Json.digitValue c, cursor.skip 1) else some (0, cursor)
    | [] => some (0, cursor)
  match chomp cursor with
  | some (chomping, cursor) => (width cursor).map fun (n, cursor) => (chomping, n, cursor)
  | none => (width cursor).map fun (n, cursor) =>
    match if n == 0 then none else chomp cursor with
    | some (chomping, cursor) => (chomping, n, cursor)
    | none => (.clip, n, cursor)

/-- A block scalar from after its `|` or `>`: its text, and the place after it. -/
def blockFrom (parent : Int) (literal : Bool) (cursor : Cursor) : Option (List Char × Cursor) := do
  let (chomping, width, cursor) ← blockHeader cursor
  let cursor := cursor.skipGaps.skipComment
  if !(cursor.rest.isEmpty || cursor.rest.head?.any isBreak) then none
  else
    let cursor := cursor.takeBreak.2
    let indent := if width == 0 then 0 else (max parent 0).toNat + width
    let fuel := cursor.rest.length + 1
    let (indent, trail, cursor) ← blockBreaks parent fuel indent 0 [] cursor
    let (text, lead, trail, cursor) ←
      blockLines parent literal indent fuel [] [] trail false cursor
    let text := match chomping with
      | .strip => text
      | .clip => text ++ lead
      | .keep => text ++ lead ++ trail
    some (text, cursor)

end ApiAtlas.Yaml
