import ApiAtlas.Document.Reader
import ApiAtlas.Settings
import ApiAtlas.Yaml.Tree

namespace ApiAtlas.Yaml

/-- The number that digits of a base spell, if there is at least one. -/
def naturalIn? (base : Nat) (digits : List Char) : Option Nat :=
  if digits.isEmpty then none
  else digits.foldlM (fun n c => do
    let d ← Json.hexValue? c
    if d < base then some (base * n + d) else none) 0

/-- A number with a zero in front is a text. -/
def hasLeadingZero (text : List Char) : Bool :=
  let digits := match text with
    | '-' :: digits => digits
    | '+' :: digits => digits
    | digits => digits
  1 < digits.length && digits.head? == some '0' && digits.all Char.isDigit

/-- The bases that a number names in front. -/
def bases : List (List Char × Nat) := [(['0', 'x'], 16), (['0', 'o'], 8), (['0', 'b'], 2)]

/-- A natural number below a bound: with the lead of a base, or in decimal without a zero in
front. -/
def natural? (bound : Nat) (text : List Char) : Option Nat :=
  let unsigned := match text with
    | '+' :: rest => rest
    | rest => rest
  let based := bases.findSome? fun (lead, base) =>
    (afterLead? lead unsigned).bind fun digits =>
      (naturalIn? base digits).filter (· < bound)
  based <|> (if hasLeadingZero text then none else (naturalIn? 10 unsigned).filter (· < bound))

/-- The absolute value of a negative number up to a bound, written in the same ways. -/
def negated? (bound : Nat) (text : List Char) : Option Nat :=
  match text with
  | '-' :: unsigned =>
    let based := bases.findSome? fun (lead, base) =>
      (afterLead? lead unsigned).bind fun digits =>
        (naturalIn? base digits).filter (· ≤ bound)
    based <|> (if hasLeadingZero text then none else (naturalIn? 10 unsigned).filter (· ≤ bound))
  | _ => none

/-- A decimal with digits on at least one side of its point. -/
def decimal? (text : List Char) : Option Decimal := do
  let (negative, text) := match text with
    | '-' :: rest => (true, rest)
    | '+' :: rest => (false, rest)
    | rest => (false, rest)
  let (whole, text) := Json.takeDigits text
  let (fraction, text) := match text with
    | '.' :: rest => Json.takeDigits rest
    | rest => ([], rest)
  if whole.isEmpty && fraction.isEmpty then none
  else match text with
    | [] => some ⟨negative, whole, fraction, 0⟩
    | c :: rest =>
      if c == 'e' || c == 'E' then
        let (minus, rest) := match rest with
          | '-' :: rest => (true, rest)
          | '+' :: rest => (false, rest)
          | rest => (false, rest)
        let (digits, rest) := Json.takeDigits rest
        if digits.isEmpty || !rest.isEmpty then none
        else
          let n : Int := digitsValue digits
          some ⟨negative, whole, fraction, if minus then -n else n⟩
      else none

/-- A number of binary64; `none` inside for infinities and for what is not a number. -/
def float? (text : List Char) : Option (Option Binary64) :=
  if [".inf", ".Inf", ".INF", "+.inf", "+.Inf", "+.INF", "-.inf", "-.Inf", "-.INF", ".nan", ".NaN",
      ".NAN"].contains (String.ofList text) then some none
  else ((decimal? text).bind Decimal.nearest).map some

/-- The spellings of `null`. -/
def isNullText (text : String) : Bool := ["null", "Null", "NULL", "~"].contains text

/-- The truth value of a text. -/
def truth? (text : String) : Option Bool :=
  if ["true", "True", "TRUE"].contains text then some true
  else if ["false", "False", "FALSE"].contains text then some false
  else none

/-- A whole number of at most 64 bits; `none` inside for one of up to 128 bits. -/
def whole? (text : List Char) : Option (Option Datum) :=
  match natural? (Nat.pow 2 64) text with
  | some n => some (some (.natural n))
  | none =>
    match negated? (Nat.pow 2 63) text with
    | some n => some (some (.negated n))
    | none =>
      if (natural? (Nat.pow 2 128) text).isSome || (negated? (Nat.pow 2 127) text).isSome then
        some none
      else none

/-- What a plain scalar is by its look. -/
def plainDatum (text : String) : Option Datum :=
  if text.isEmpty || isNullText text then some .null
  else
    match truth? text with
    | some b => some (.bool b)
    | none =>
      match whole? text.toList with
      | some number => number
      | none =>
        if hasLeadingZero text.toList then some (.string text)
        else
          match float? text.toList with
          | some x => some (.float x)
          | none => some (.string text)

/-- What the tags of the standard start with. -/
def standardLead : String := "tag:yaml.org,2002:"

/-- A tag that the text gives a meaning of its own. -/
def isOwnTag (tag : String) : Bool := tag.toList.head? == some '!'

/-- The name in a tag of the text's own. -/
def ownTagName (tag : String) : String :=
  if tag == "!" then tag else String.ofList (tag.toList.drop 1)

/-- What a scalar is. -/
def scalarDatum (tag : Option String) (text : String) (style : ScalarStyle) : Option Datum :=
  match tag with
  | none => if style == .plain then plainDatum text else some (.string text)
  | some tag =>
    if isOwnTag tag then none
    else if tag == standardLead ++ "bool" then (truth? text).map .bool
    else if tag == standardLead ++ "int" then (whole? text.toList).join
    else if tag == standardLead ++ "float" then (float? text.toList).map .float
    else if tag == standardLead ++ "null" then
      if isNullText text then some .null else none
    else some (.string text)

/-- A scalar by the answers it gives. -/
def scalarOf (tag : Option String) (text : String) (style : ScalarStyle) : Scalar where
  text := some text
  truth :=
    if style == .plain || (style == .literal && tag == some (standardLead ++ "bool")) then
      truth? text
    else none
  count :=
    if style == .plain || (style == .literal && tag == some (standardLead ++ "int")) then
      natural? (Nat.pow 2 64) text.toList
    else none
  choice :=
    match tag with
    | some tag =>
      if !isOwnTag tag then some text
      else if style == .plain && (text.isEmpty || isNullText text) then some (ownTagName tag)
      else none
    | none => some text
  datum := scalarDatum tag text style
  absent :=
    if style != .plain then some false
    else
      match tag with
      | some tag =>
        if tag != standardLead ++ "null" then some false
        else if isNullText text then some true else none
      | none => some (text.isEmpty || isNullText text)
  isEmpty := style == .plain && text.isEmpty

mutual

/-- The nodes with anchors, in order. -/
def Tree.anchored : Tree → List (Nat × Tree)
  | .alias _ => []
  | .scalar anchor tag text style => anchor.toList.map (·, .scalar anchor tag text style)
  | .sequence anchor tag items =>
    anchor.toList.map (·, .sequence anchor tag items) ++ Tree.anchoredItems items
  | .mapping anchor tag members =>
    anchor.toList.map (·, .mapping anchor tag members) ++ Tree.anchoredMembers members

/-- The nodes with anchors among items. -/
def Tree.anchoredItems : List Tree → List (Nat × Tree)
  | [] => []
  | tree :: rest => tree.anchored ++ Tree.anchoredItems rest

/-- The nodes with anchors among members. -/
def Tree.anchoredMembers : List (Tree × Tree) → List (Nat × Tree)
  | [] => []
  | (key, value) :: rest => key.anchored ++ value.anchored ++ Tree.anchoredMembers rest

end

/-- A computation that may replace only so many aliases. -/
abbrev Expanding := StateT Nat Option

/-- What an alias stands for. -/
def deref (marked : List (Nat × Tree)) : Tree → Expanding Tree
  | .alias id => do
    let left ← get
    if left == 0 then failure
    set (left - 1)
    match marked.lookup id with
    | some tree => pure tree
    | none => failure
  | tree => pure tree

/-- The tag leaves the type of a collection to its reader. -/
def isPlainTag (tag : Option String) : Bool := !tag.any isOwnTag

/-- The node of a tree in which `room` more collections may be open, as far as its reader goes: an
alias in what the reader passes over stands for nothing. -/
def nodeWithin (marked : List (Nat × Tree)) : Nat → Reach → Tree → Expanding Node
  | 0, _, tree => do
    match ← deref marked tree with
    | .scalar _ tag text style => pure (.scalar (scalarOf tag text style))
    | _ => pure .unreadable
  | room + 1, reach, tree => do
    match ← deref marked tree with
    | .scalar _ tag text style => pure (.scalar (scalarOf tag text style))
    | .sequence _ tag items =>
      pure (.sequence false (isPlainTag tag) (← items.mapM (nodeWithin marked room reach.item)))
    | .mapping _ tag members =>
      pure (.mapping (isPlainTag tag) (← members.mapM fun (key, value) => do
        let key ← nodeWithin marked room .whole key
        match reach.member? key.text? with
        | some reach => pure (key, ← nodeWithin marked room reach value)
        | none => pure (key, .unreadable)))
    | .alias _ => failure

/-- The deepest nesting of collections. -/
def maxDepth : Nat := 128

/-- A text without a document stands for a value that is not there, or an empty collection. -/
def emptyNode : Node := .scalar { absent := some true, isEmpty := true, datum := some .null }

/-- The node that the only document of a YAML text holds, as far as its reader goes. -/
def readNode (reach : Reach) (text : String) : Option Node := do
  let tokens ← tokensOf? text.toList
  let (tree, composer) ←
    (Compose.document (4 * tokens.length + 8)).run { tokens }
  match tree with
  | none => some emptyNode
  | some tree =>
    let marked := tree.anchored.reverse
    let (node, _) ← (nodeWithin marked maxDepth reach tree).run (100 * composer.events)
    some node

end ApiAtlas.Yaml

namespace ApiAtlas

/-- Read a document from YAML. -/
def Document.ofYaml (text : String) : Except ParseError Document :=
  Document.accept .yaml (Yaml.readNode Document.reach text)

/-- Read a document in a format. -/
def Document.parse (format : Format) (text : String) : Except ParseError Document :=
  match format with
  | .json => Document.ofJson text
  | .yaml => Document.ofYaml text

/-- Read settings from YAML. -/
def Settings.parse (text : String) : Option Settings :=
  (Yaml.readNode Settings.reach text).bind Settings.ofNode?

end ApiAtlas
