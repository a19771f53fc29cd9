import ApiAtlas.Yaml.Token

namespace ApiAtlas.Yaml

/-- A node as written. -/
inductive Tree
  | alias (id : Nat)
  | scalar (anchor : Option Nat) (tag : Option String) (text : String) (style : ScalarStyle)
  | sequence (anchor : Option Nat) (tag : Option String) (items : List Tree)
  | mapping (anchor : Option Nat) (tag : Option String) (members : List (Tree × Tree))
deriving Repr, Inhabited

/-- A node that is not written. -/
def Tree.missing : Tree := .scalar none none "" .plain

/-- What is known between two nodes. -/
structure Composer where
  tokens : List Token
  /-- The number of the last anchor of each name. A name that comes again gets the count of names,
  as does the next new name after it. -/
  anchors : List (String × Nat) := []
  /-- What the handles of tags stand for. -/
  handles : List (String × List UInt8) := []
  /-- Scalars and aliases count once, collections at their start and at their end. -/
  events : Nat := 0
deriving Inhabited

/-- A step of composing, which fails on a malformed text. -/
abbrev Compose := StateT Composer Option

namespace Compose

/-- The next token. -/
def peek : Compose (Option Token) := do
  pure (← get).tokens.head?

/-- Pass a token. -/
def advance : Compose Unit :=
  modify fun s => { s with tokens := s.tokens.drop 1 }

/-- Pass a token that has to come next. -/
def expect (token : Token) : Compose Unit := do
  if (← peek) == some token then advance else failure

/-- Count events. -/
def count (events : Nat) : Compose Unit :=
  modify fun s => { s with events := s.events + events }

/-- The number of an anchor. -/
def register (name : Option String) : Compose (Option Nat) := do
  match name with
  | none => pure none
  | some name =>
    let s ← get
    let id := s.anchors.length
    let others := s.anchors.filter (·.1 != name)
    set { s with anchors := (name, id) :: others }
    pure (some id)

/-- A node that is not written. -/
def missing : Compose Tree := do
  count 1
  pure .missing

/-- The handles that need no directive. -/
def standardHandles : List (String × List UInt8) :=
  [("!", "!".toUTF8.toList), ("!!", "tag:yaml.org,2002:".toUTF8.toList)]

/-- The text of a tag; empty, which no meaning is given to, if its bytes are no text. -/
def tagOfBytes (bytes : List UInt8) : String := (String.fromUTF8? ⟨bytes.toArray⟩).getD ""

/-- A tag without its handle. -/
def resolveTag (handle : String) (suffix : List UInt8) : Compose String := do
  if handle == "" then pure (tagOfBytes suffix)
  else
    let s ← get
    match (s.handles ++ standardHandles).lookup handle with
    | some lead => pure (tagOfBytes (lead ++ suffix))
    | none => failure

/-- The anchor and tag of a node, in either order. -/
def properties : Nat → Option String → Option String → Compose (Option String × Option String)
  | 0, anchor, tag => pure (anchor, tag)
  | left + 1, anchor, tag => do
    match ← peek with
    | some (.anchor name) =>
      if anchor.isSome then pure (anchor, tag)
      else
        advance
        properties left (some name) tag
    | some (.tag handle suffix) =>
      if tag.isSome then pure (anchor, tag)
      else
        advance
        let text ← resolveTag handle suffix
        properties left anchor (some text)
    | _ => pure (anchor, tag)

/-- One of these tokens comes next, or none. -/
def atAny (tokens : List Token) : Compose Bool := do
  match ← peek with
  | some token => pure (tokens.contains token)
  | none => pure true

mutual

/-- A node. `block` admits block collections, `indentless` a list at the indentation of its key. -/
def node : Nat → Bool → Bool → Compose Tree
  | 0, _, _ => failure
  | fuel + 1, block, indentless => do
    if let some (.alias name) ← peek then
      advance
      count 1
      match (← get).anchors.lookup name with
      | some id => return .alias id
      | none => failure
    let (anchor, tag) ← properties 2 none none
    match ← peek with
    | some (.scalar text style) =>
      advance
      count 1
      let id ← register anchor
      pure (.scalar id tag text style)
    | some .blockEntry =>
      if indentless then
        let id ← register anchor
        count 2
        pure (.sequence id tag (← indentlessItems fuel))
      else absent anchor tag
    | some .flowSequenceStart =>
      advance
      let id ← register anchor
      count 2
      pure (.sequence id tag (← flowItems fuel true))
    | some .flowMappingStart =>
      advance
      let id ← register anchor
      count 2
      pure (.mapping id tag (← flowMembers fuel true))
    | some .blockSequenceStart =>
      if block then
        advance
        let id ← register anchor
        count 2
        pure (.sequence id tag (← blockItems fuel))
      else absent anchor tag
    | some .blockMappingStart =>
      if block then
        advance
        let id ← register anchor
        count 2
        pure (.mapping id tag (← blockMembers fuel))
      else absent anchor tag
    | _ => absent anchor tag
where
  absent (anchor tag : Option String) : Compose Tree := do
    if anchor.isNone && tag.isNone then failure
    count 1
    let id ← register anchor
    pure (.scalar id tag "" .plain)

/-- A node, unless one of these tokens comes next. -/
def nodeUnless : Nat → List Token → Bool → Bool → Compose Tree
  | 0, _, _, _ => failure
  | fuel + 1, ends, block, indentless => do
    if ← atAny ends then missing else node fuel block indentless

/-- The items of a block sequence. -/
def blockItems : Nat → Compose (List Tree)
  | 0 => failure
  | fuel + 1 => do
    if (← peek) == some .blockEntry then
      advance
      let item ← nodeUnless fuel [.blockEntry, .blockEnd] true false
      pure (item :: (← blockItems fuel))
    else
      expect .blockEnd
      pure []

/-- The items of a sequence at the indentation of its key. -/
def indentlessItems : Nat → Compose (List Tree)
  | 0 => failure
  | fuel + 1 => do
    if (← peek) == some .blockEntry then
      advance
      let item ← nodeUnless fuel [.blockEntry, .key, .value, .blockEnd] true false
      pure (item :: (← indentlessItems fuel))
    else pure []

/-- The members of a block mapping. -/
def blockMembers : Nat → Compose (List (Tree × Tree))
  | 0 => failure
  | fuel + 1 => do
    match ← peek with
    | some .blockEnd =>
      advance
      pure []
    | some .key =>
      advance
      let key ← nodeUnless fuel [.key, .value, .blockEnd] true true
      let value ← blockValue fuel
      pure ((key, value) :: (← blockMembers fuel))
    | _ => failure

/-- The value of a block mapping's member. -/
def blockValue : Nat → Compose Tree
  | 0 => failure
  | fuel + 1 => do
    if (← peek) == some .value then
      advance
      nodeUnless fuel [.key, .value, .blockEnd] true true
    else missing

/-- The items of a flow sequence. A key among them makes a mapping of one member. -/
def flowItems : Nat → Bool → Compose (List Tree)
  | 0, _ => failure
  | fuel + 1, first => do
    if (← peek) == some .flowSequenceEnd then
      advance
      return []
    if !first then expect .flowEntry
    match ← peek with
    | some .flowSequenceEnd =>
      advance
      pure []
    | some .key =>
      advance
      count 2
      let key ← flowItemKey fuel
      let value ← flowValue fuel [.flowEntry, .flowSequenceEnd]
      pure (.mapping none none [(key, value)] :: (← flowItems fuel false))
    | _ =>
      let item ← node fuel false false
      pure (item :: (← flowItems fuel false))

/-- The key of a mapping of one member. Where it is missing, the token after it is passed over. -/
def flowItemKey : Nat → Compose Tree
  | 0 => failure
  | fuel + 1 => do
    if ← atAny [.value, .flowEntry, .flowSequenceEnd] then
      advance
      missing
    else node fuel false false

/-- The value of a flow mapping's member. -/
def flowValue : Nat → List Token → Compose Tree
  | 0, _ => failure
  | fuel + 1, ends => do
    if (← peek) == some .value then
      advance
      nodeUnless fuel ends false false
    else missing

/-- The members of a flow mapping. -/
def flowMembers : Nat → Bool → Compose (List (Tree × Tree))
  | 0, _ => failure
  | fuel + 1, first => do
    if (← peek) == some .flowMappingEnd then
      advance
      return []
    if !first then expect .flowEntry
    match ← peek with
    | some .flowMappingEnd =>
      advance
      pure []
    | some .key =>
      advance
      let key ← nodeUnless fuel [.value, .flowEntry, .flowMappingEnd] false false
      let value ← flowValue fuel [.flowEntry, .flowMappingEnd]
      pure ((key, value) :: (← flowMembers fuel false))
    | _ =>
      let key ← node fuel false false
      let value ← missing
      pure ((key, value) :: (← flowMembers fuel false))

end

/-- The directives in front of a document. -/
def directives : Nat → Bool → Compose Unit
  | 0, _ => failure
  | fuel + 1, versioned => do
    match ← peek with
    | some (.version major minor) =>
      if versioned || major != 1 || (minor != 1 && minor != 2) then failure
      advance
      directives fuel true
    | some (.tagHandle handle lead) =>
      let s ← get
      if (s.handles.lookup handle).isSome then failure
      advance
      modify fun s => { s with handles := (handle, lead) :: s.handles }
      directives fuel versioned
    | _ => pure ()

/-- A token that belongs to no node. -/
def isMark : Token → Bool
  | .version .. => true
  | .tagHandle .. => true
  | .documentStart => true
  | .documentEnd => true
  | _ => false

/-- The only document of a text, or none. -/
def document (fuel : Nat) : Compose (Option Tree) := do
  match ← peek with
  | none => pure none
  | some token =>
    let tree ←
      if isMark token && token != .documentEnd then
        directives fuel false
        expect .documentStart
        if (← peek).all isMark then missing else node fuel true false
      else if isMark token then failure
      else node fuel true false
    finish fuel
    pure (some tree)
where
  finish : Nat → Compose Unit
    | 0 => failure
    | fuel + 1 => do
      match ← peek with
      | none => pure ()
      | some .documentEnd =>
        advance
        finish fuel
      | _ => failure

end Compose

end ApiAtlas.Yaml
