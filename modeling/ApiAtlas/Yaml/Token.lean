import ApiAtlas.Yaml.Scalar

namespace ApiAtlas.Yaml

/-- A token. -/
inductive Token
  | version (major minor : Nat)
  | tagHandle (handle : String) (lead : List UInt8)
  | documentStart
  | documentEnd
  | blockSequenceStart
  | blockMappingStart
  | blockEnd
  | flowSequenceStart
  | flowSequenceEnd
  | flowMappingStart
  | flowMappingEnd
  | blockEntry
  | flowEntry
  | key
  | value
  | alias (name : String)
  | anchor (name : String)
  | tag (handle : String) (suffix : List UInt8)
  | scalar (text : String) (style : ScalarStyle)
deriving Repr, DecidableEq, Inhabited

/-- A place where a key may have started. Whether it did shows only at the colon after it, so the
place keeps a slot among the tokens, which the colon fills. -/
structure KeyStart where
  possible : Bool := false
  /-- A key has to be here, as the block collection would end otherwise. -/
  required : Bool := false
  /-- The slot among the tokens. -/
  slot : Nat := 0
  bytes : Nat := 0
  line : Nat := 0
  column : Nat := 0
deriving Repr, Inhabited

/-- What is known between two tokens. -/
structure Scanner where
  cursor : Cursor
  /-- Tokens so far; an empty group is a slot. -/
  tokens : Array (List Token) := #[]
  /-- The column of the innermost block collection, or `-1`. -/
  indent : Int := -1
  /-- The columns of the block collections around it. -/
  indents : List Int := []
  /-- The last place where a key may have started. -/
  keyStart : KeyStart := {}
  /-- Such places of the collections around the innermost flow collection. -/
  outerKeys : List KeyStart := []
  /-- The number of open flow collections. -/
  flowLevel : Nat := 0
  /-- A key may start here. -/
  keyAllowed : Bool := true
deriving Inhabited

/-- A step of scanning, which fails on a malformed text. -/
abbrev Scan := StateT Scanner Option

namespace Scan

/-- Add a token. -/
def emit (token : Token) : Scan Unit :=
  modify fun s => { s with tokens := s.tokens.push [token] }

/-- Pass some characters. -/
def skip (count : Nat) : Scan Unit :=
  modify fun s => { s with cursor := s.cursor.skip count }

/-- Allow or forbid a key at the next place. -/
def allowKey (allowed : Bool) : Scan Unit :=
  modify fun s => { s with keyAllowed := allowed }

/-- Give up the place where a key may have started. -/
def dropKey : Scan Unit := do
  let s ← get
  if s.keyStart.possible && s.keyStart.required then failure
  set { s with keyStart := { s.keyStart with possible := false } }

/-- A key has to end on its line and within 1024 bytes. -/
def expireKeys : Scan Unit := do
  let s ← get
  let isStale (k : KeyStart) : Bool :=
    k.possible && (k.line < s.cursor.line || k.bytes + 1024 < s.cursor.bytes)
  if (s.keyStart :: s.outerKeys).any fun k => isStale k && k.required then failure
  let expire (k : KeyStart) : KeyStart := if isStale k then { k with possible := false } else k
  set { s with keyStart := expire s.keyStart, outerKeys := s.outerKeys.map expire }

/-- Note that a key may start here. -/
def saveKey : Scan Unit := do
  let s ← get
  if s.keyAllowed then
    dropKey
    let required := s.flowLevel == 0 && s.indent == (s.cursor.column : Int)
    modify fun s => { s with
      keyStart := ⟨true, required, s.tokens.size, s.cursor.bytes, s.cursor.line, s.cursor.column⟩
      tokens := s.tokens.push [] }

/-- Open a block collection if the column is deeper than the innermost one; the answer says so. -/
def roll (column : Nat) : Scan Bool := do
  let s ← get
  if s.flowLevel == 0 && s.indent < (column : Int) then
    set { s with indents := s.indent :: s.indents, indent := (column : Int) }
    pure true
  else pure false

/-- Close block collections deeper than a column. -/
def unrollFrom (column : Int) :
    List Int → Int → Array (List Token) → List Int × Int × Array (List Token)
  | [], indent, tokens => ([], indent, tokens)
  | outer :: indents, indent, tokens =>
    if column < indent then unrollFrom column indents outer (tokens.push [.blockEnd])
    else (outer :: indents, indent, tokens)

/-- Close block collections deeper than a column. -/
def unroll (column : Int) : Scan Unit :=
  modify fun s =>
    if s.flowLevel == 0 then
      let (indents, indent, tokens) := unrollFrom column s.indents s.indent s.tokens
      { s with indents, indent, tokens }
    else s

/-- A name of letters, digits, `-` and `_`. -/
def isNameChar (c : Char) : Bool := c.isAlphanum || c == '_' || c == '-'

/-- Take the characters of the current line that satisfy a condition. -/
def takeWhile (p : Char → Bool) : Scan (List Char) := do
  let s ← get
  let taken := s.cursor.rest.takeWhile p
  skip taken.length
  pure taken

/-- The next character. -/
def peek : Scan (Option Char) := do
  pure (← get).cursor.rest.head?

/-- Pass a character that has to come next. -/
def expect (c : Char) : Scan Unit := do
  if (← peek) == some c then skip 1 else failure

/-- A word has to end here. -/
def expectEnd : Scan Unit := do
  if !endsWord (← get).cursor.rest then failure

/-- The handle of a tag: `!`, `!name` or `!name!`. -/
def tagHandle (directive : Bool) : Scan (List Char) := do
  expect '!'
  let name ← takeWhile isNameChar
  if (← peek) == some '!' then
    skip 1
    pure ('!' :: name ++ ['!'])
  else if directive && !name.isEmpty then failure
  else pure ('!' :: name)

/-- A character of a tag; `wide` admits the indicators of flow collections. -/
def isTagChar (wide : Bool) (c : Char) : Bool :=
  isNameChar c || ";/?:@&=+$.!~*'()".toList.contains c || (wide && ",[]".toList.contains c)

/-- The byte written as `%` and two hexadecimal digits. -/
def percentByte? : List Char → Option (Nat × List Char)
  | '%' :: a :: b :: rest => do
    let a ← Json.hexValue? a
    let b ← Json.hexValue? b
    pure (16 * a + b, rest)
  | _ => none

/-- The number of bytes that follow the first byte of a character. -/
def trailCount? (first : Nat) : Option Nat :=
  if first < 0x80 then some 0
  else if first < 0xC0 then none
  else if first < 0xE0 then some 1
  else if first < 0xF0 then some 2
  else if first < 0xF8 then some 3
  else none

/-- Bytes that follow the first one, written in the same way. -/
def trailBytes? : Nat → List Char → Option (List Nat × List Char)
  | 0, cs => some ([], cs)
  | count + 1, cs => do
    let (byte, cs) ← percentByte? cs
    if byte / 64 != 2 then none
    else
      let (bytes, cs) ← trailBytes? count cs
      pure (byte :: bytes, cs)

/-- The bytes of one character, each written as `%` and two hexadecimal digits. Only their number
and their leading bits are checked. -/
def percentBytes? (cs : List Char) : Option (List Nat × List Char) := do
  let (first, cs) ← percentByte? cs
  let (bytes, cs) ← trailBytes? (← trailCount? first) cs
  pure (first :: bytes, cs)

/-- The bytes of a tag. -/
def tagBytes (wide : Bool) : Nat → Scan (List UInt8)
  | 0 => failure
  | fuel + 1 => do
    match ← peek with
    | some '%' =>
      let s ← get
      let (bytes, rest) ← StateT.lift (percentBytes? s.cursor.rest)
      set { s with cursor := s.cursor.skipTo rest }
      pure (bytes.map UInt8.ofNat ++ (← tagBytes wide fuel))
    | some c =>
      if isTagChar wide c then
        skip 1
        pure (c.toUInt8 :: (← tagBytes wide fuel))
      else pure []
    | none => pure []

/-- The bytes of a tag from `lead` on, of which there has to be one if `required`. A tag ends at its
first zero. -/
def tagText (wide required : Bool) (lead : List Char) : Scan (List UInt8) := do
  let bytes ← tagBytes wide ((← get).cursor.rest.length + 1)
  if required && bytes.isEmpty then failure
  pure ((lead.map Char.toUInt8 ++ bytes).takeWhile (· != 0))

/-- A directive. -/
def directive : Scan Unit := do
  unroll (-1)
  dropKey
  allowKey false
  skip 1
  let name ← takeWhile isNameChar
  expectEnd
  if name == "YAML".toList then
    let _ ← takeWhile isGap
    let major ← takeWhile Char.isDigit
    expect '.'
    let minor ← takeWhile Char.isDigit
    let fits (digits : List Char) : Bool := !digits.isEmpty && digits.length ≤ 9
    if !fits major || !fits minor then failure
    emit (.version (digitsValue (major.map Json.digitValue))
      (digitsValue (minor.map Json.digitValue)))
  else if name == "TAG".toList then
    let _ ← takeWhile isGap
    let handle ← tagHandle true
    if !(← peek).any isGap then failure
    let _ ← takeWhile isGap
    let lead ← tagText true true []
    expectEnd
    emit (.tagHandle (String.ofList handle) lead)
  else failure
  modify fun s => { s with cursor := s.cursor.skipGaps.skipComment }
  let s ← get
  if !(s.cursor.rest.isEmpty || s.cursor.rest.head?.any isBreak) then failure
  set { s with cursor := s.cursor.takeBreak.2 }

/-- The mark that starts or ends a document. -/
def documentMark (token : Token) : Scan Unit := do
  unroll (-1)
  dropKey
  allowKey false
  skip 3
  emit token

/-- The start of a flow collection. -/
def flowStart (token : Token) : Scan Unit := do
  saveKey
  modify fun s => { s with
    outerKeys := s.keyStart :: s.outerKeys
    keyStart := {}
    flowLevel := s.flowLevel + 1 }
  allowKey true
  skip 1
  emit token

/-- The end of a flow collection. -/
def flowEnd (token : Token) : Scan Unit := do
  dropKey
  modify fun s =>
    match s.outerKeys with
    | outer :: rest => { s with outerKeys := rest, keyStart := outer, flowLevel := s.flowLevel - 1 }
    | [] => s
  allowKey false
  skip 1
  emit token

/-- The comma between items. -/
def flowEntry : Scan Unit := do
  dropKey
  allowKey true
  skip 1
  emit .flowEntry

/-- The dash of an item. -/
def blockEntry : Scan Unit := do
  let s ← get
  if s.flowLevel == 0 then
    if !s.keyAllowed then failure
    if ← roll s.cursor.column then emit .blockSequenceStart
  dropKey
  allowKey true
  skip 1
  emit .blockEntry

/-- The question mark of a key. -/
def explicitKey : Scan Unit := do
  let s ← get
  if s.flowLevel == 0 then
    if !s.keyAllowed then failure
    if ← roll s.cursor.column then emit .blockMappingStart
  dropKey
  allowKey (s.flowLevel == 0)
  skip 1
  emit .key

/-- The colon of a value, which makes a key of what may have been one. -/
def mappingValue : Scan Unit := do
  let s ← get
  if s.keyStart.possible then
    let opens ← roll s.keyStart.column
    modify fun s => { s with
      tokens := s.tokens.setIfInBounds s.keyStart.slot
        (if opens then [.blockMappingStart, .key] else [.key])
      keyStart := { s.keyStart with possible := false }
      keyAllowed := false }
  else
    if s.flowLevel == 0 then
      if !s.keyAllowed then failure
      if ← roll s.cursor.column then emit .blockMappingStart
    allowKey (s.flowLevel == 0)
  skip 1
  emit .value

/-- An anchor or alias. -/
def reference (token : String → Token) : Scan Unit := do
  saveKey
  allowKey false
  skip 1
  let name ← takeWhile isNameChar
  let s ← get
  let ends := endsWord s.cursor.rest || s.cursor.rest.head?.any ("?:,]\x7d%@".toList.contains ·) ||
    s.cursor.rest.head? == some '\x60'
  if name.isEmpty || !ends then failure
  emit (token (String.ofList name))

/-- A tag. -/
def tag : Scan Unit := do
  saveKey
  allowKey false
  let s ← get
  match s.cursor.rest with
  | '!' :: '<' :: _ =>
    skip 2
    let suffix ← tagText true true []
    expect '>'
    emit (.tag "" suffix)
  | _ =>
    let handle ← tagHandle false
    if handle.length > 1 && handle.getLast? == some '!' then
      emit (.tag (String.ofList handle) (← tagText false true []))
    else
      let suffix ← tagText false false (handle.drop 1)
      if suffix.isEmpty then emit (.tag "" ['!'.toUInt8]) else emit (.tag "!" suffix)
  let s ← get
  if !(endsWord s.cursor.rest || (s.flowLevel != 0 && s.cursor.rest.head? == some ',')) then failure

/-- A block scalar. -/
def blockScalar (literal : Bool) : Scan Unit := do
  dropKey
  allowKey true
  skip 1
  let s ← get
  let (text, cursor) ← StateT.lift (blockFrom s.indent literal s.cursor)
  set { s with cursor }
  emit (.scalar (String.ofList text) (if literal then .literal else .folded))

/-- A quoted scalar. -/
def quotedScalar (single : Bool) : Scan Unit := do
  saveKey
  allowKey false
  skip 1
  let s ← get
  let (text, cursor) ←
    StateT.lift (quotedFrom single (s.cursor.rest.length + 1) [] s.cursor)
  set { s with cursor }
  emit (.scalar (String.ofList text) (if single then .singleQuoted else .doubleQuoted))

/-- A plain scalar. A line break after it allows a key again. -/
def plainScalar : Scan Unit := do
  saveKey
  allowKey false
  let s ← get
  let (text, broken, cursor) ← StateT.lift
    (plainFrom (s.flowLevel != 0) (s.indent + 1) (s.cursor.rest.length + 1) [] false [] s.cursor)
  set { s with cursor, keyAllowed := s.keyAllowed || broken }
  emit (.scalar (String.ofList text) .plain)

/-- Pass blanks, comments and line breaks down to the next token. Tabs do not count as blanks where
a block key may start. A byte order mark may start a line, of which it takes a column. -/
def skipToToken : Nat → Scan Unit
  | 0 => failure
  | fuel + 1 => do
    let s ← get
    if s.cursor.column == 0 && s.cursor.rest.head? == some '\ufeff' then skip 1
    let _ ← takeWhile fun c => c == ' ' || (c == '\t' && (s.flowLevel != 0 || !s.keyAllowed))
    modify fun s => { s with cursor := s.cursor.skipComment }
    if (← peek).any isBreak then
      modify fun s => { s with
        cursor := s.cursor.takeBreak.2
        keyAllowed := s.keyAllowed || s.flowLevel == 0 }
      skipToToken fuel

/-- Scan the next token; the answer says whether the text goes on. -/
def next : Scan Bool := do
  skipToToken ((← get).cursor.rest.length + 1)
  expireKeys
  let s ← get
  unroll s.cursor.column
  let rest := s.cursor.rest
  let flow := s.flowLevel != 0
  match rest with
  | [] =>
    unroll (-1)
    dropKey
    pure false
  | c :: cs =>
    let atStart := s.cursor.column == 0
    if atStart && c == '%' then directive
    else if atStart && atDocumentMark rest then
      documentMark (if c == '-' then .documentStart else .documentEnd)
    else if c == '[' then flowStart .flowSequenceStart
    else if c == '\x7b' then flowStart .flowMappingStart
    else if c == ']' then flowEnd .flowSequenceEnd
    else if c == '\x7d' then flowEnd .flowMappingEnd
    else if c == ',' then flowEntry
    else if c == '-' && endsWord cs then blockEntry
    else if c == '?' && (flow || endsWord cs) then explicitKey
    else if c == ':' && (flow || endsWord cs) then mappingValue
    else if c == '*' then reference .alias
    else if c == '&' then reference .anchor
    else if c == '!' then tag
    else if c == '|' && !flow then blockScalar true
    else if c == '>' && !flow then blockScalar false
    else if c == '\'' then quotedScalar true
    else if c == '"' then quotedScalar false
    else if "#|>%@".toList.contains c || c == '\x60' || isGap c then failure
    else plainScalar
    pure true

/-- Scan down to the end. -/
def all : Nat → Scan Unit
  | 0 => failure
  | fuel + 1 => do
    if ← next then all fuel

end Scan

/-- The tokens of a text. -/
def tokensOf? (text : List Char) : Option (List Token) :=
  if text.all isPrintable then
    ((Scan.all (text.length + 2)).run { cursor := { rest := text } }).map fun (_, s) =>
      s.tokens.toList.flatten
  else none

end ApiAtlas.Yaml
