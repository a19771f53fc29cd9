import ApiAtlas.Document.Schema
import ApiAtlas.Model.Basic
import ApiAtlas.Text.Pieces

namespace ApiAtlas

/-- The text of a value: a string as it is, anything else as JSON. -/
def Json.rawText : Json → String
  | .string s => s
  | v => v.toText

/-- The kind that carries a value of an enum. -/
def Json.carrier? : Json → Option PrimitiveKind
  | .string _ => some .string
  | .bool _ => some .boolean
  | .float _ => some .double
  | .int _ => some .int
  | _ => none

/-- The kind that carries values of both kinds. -/
def PrimitiveKind.join? (a b : PrimitiveKind) : Option PrimitiveKind :=
  match a, b with
  | .int, .double => some .double
  | .double, .int => some .double
  | a, b => if a = b then some a else none

/-- Go through the values of an enum: the kind that carries them all so far, and their texts
without repetition. A `null` is passed over. -/
def collectEnum (carrier : Option PrimitiveKind) (texts : List String) :
    List Json → Except String (Option PrimitiveKind × List String)
  | [] => .ok (carrier, texts)
  | value :: rest =>
    if value.isNull then collectEnum carrier texts rest
    else
      match value.carrier? with
      | none => .error "enum values must be scalars"
      | some kind =>
        match carrier.elim (some kind) (·.join? kind) with
        | none => .error "enum mixes value types"
        | some joined =>
          let text := value.rawText
          collectEnum (some joined) (if texts.contains text then texts else texts ++ [text]) rest

namespace SchemaOf

/-- The values of `enum`, a single `const`, or the list that an open enum's extension holds. -/
def enumSource? (schema : Schema) (openExtensions : List String) : Option (List Json) :=
  match schema.enumValues with
  | some values => some values
  | none =>
    match schema.constValue.filter Json.isScalar with
    | some value => some [value]
    | none => openExtensions.findSome? fun key =>
      match Entries.get? schema.extensions key with
      | some (.array values) => some values
      | _ => none

/-- The only declared type is `string`. -/
def isString (schema : Schema) : Bool := schema.types == some (.single .string)

/-- The known values of `anyOf` over a string and a string with an `enum`, in either order. -/
def openStrings? (schema : Schema) : Option (List String) := do
  let [.inline a, .inline b] := schema.anyOf | none
  let (other, known) := if a.enumValues.isNone then (a, b) else (b, a)
  let values ← known.enumValues
  let texts := values.filterMap Json.string?
  if other.isString && other.enumValues.isNone && known.isString && !texts.isEmpty then some texts
  else none

/-- The text that `enum` with one value or `const` admits. -/
def soleText? (schema : Schema) : Option String :=
  match schema.enumValues, schema.constValue with
  | some [value], _ => value.string?
  | none, some value => value.string?
  | _, _ => none

end SchemaOf

/-- The label of the `n`-th branch of a composition: for a reference the key that the discriminator
maps to it, or its name; for a schema the one value of the discriminator's property. -/
def caseLabel (branch : SchemaNode) (discriminator : Option Discriminator) (n : Nat) : String :=
  match branch with
  | .ref path =>
    let name := String.ofList (afterLast '/' path.toList)
    let key := discriminator.bind fun d =>
      (d.mapping.find? fun (_, target) => target == path || target == name).map Prod.fst
    key.getD name
  | .inline schema =>
    let value := discriminator.bind fun d =>
      (Entries.get? schema.properties d.propertyName).bind fun node =>
        node.schema?.bind SchemaOf.soleText?
    value.getD ("Case" ++ toString n)

/-- The kind of plain value that a type stands for. -/
def SchemaType.primitiveKind? : SchemaType → Option PrimitiveKind
  | .integer => some .int
  | .number => some .double
  | .boolean => some .boolean
  | .string => some .string
  | _ => none

end ApiAtlas
