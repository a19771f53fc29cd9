import ApiAtlas.Document.Schema
import ApiAtlas.Reference

namespace ApiAtlas

namespace SchemaOf

/-- The schema describes without giving a shape. -/
def isAnnotation (schema : Schema) : Bool :=
  schema.nonNullTypes.isEmpty && schema.properties.isEmpty && schema.additional.isNone &&
    schema.items.isNone && schema.allOf.isEmpty && schema.composition.isEmpty &&
    schema.enumValues.isNone && schema.constValue.isNone

/-- `additionalProperties` is a truth value. -/
def allowsAdditional? (schema : Schema) : Option Bool :=
  match schema.additional with
  | some (.allowed yes) => some yes
  | _ => none

/-- `additionalProperties` is a schema. -/
def additionalSchema? (schema : Schema) : Option SchemaNode :=
  match schema.additional with
  | some (.each node) => some node
  | _ => none

/-- The schema can be part of an object made by `allOf`. -/
def isObjectCompatible (schema : Schema) : Bool :=
  (schema.nonNullTypes == [] || schema.nonNullTypes == [.object]) && schema.composition.isEmpty &&
    schema.enumValues.isNone && schema.constValue.isNone && schema.items.isNone &&
    schema.additionalSchema?.isNone

end SchemaOf

namespace SchemaNode

/-- An annotation written in place. -/
def isAnnotation (node : SchemaNode) : Bool := node.schema?.any SchemaOf.isAnnotation

end SchemaNode

/-- A wrapped schema: the steps to it, and whether its wrapper admits `null`. -/
structure Peeled where
  keyword : String
  index : Nat
  node : SchemaNode
  nullable : Bool

namespace SchemaOf

/-- The one branch of `allOf` that is more than an annotation, where the schema adds no shape. -/
def soleStructural? (schema : Schema) : Option (SchemaNode × Nat) :=
  if schema.composition.isEmpty && schema.enumValues.isNone && schema.constValue.isNone &&
      schema.items.isNone && schema.additional.isNone then
    match schema.allOf.zipIdx.filter fun (branch, _) => !branch.isAnnotation with
    | [only] => some only
    | _ => none
  else none

/-- What the schema wraps, if it is a wrapper. -/
def peel? (schema : Schema) : Option Peeled :=
  if !schema.properties.isEmpty then none
  else if !schema.allOf.isEmpty then
    schema.soleStructural?.map fun (node, index) =>
      ⟨"allOf", index, node,
        schema.allOf.any fun branch => branch.schema?.any SchemaOf.isNullable⟩
  else
    schema.nullableWrapper?.map fun node =>
      ⟨schema.compositionKeyword,
        (schema.composition.findIdx? fun branch => !branch.isNullSchema).getD 0, node, true⟩

end SchemaOf

/-- A node without its wrappers: where it stands, and whether it or a wrapper admits `null`. -/
structure Unwrapped where
  node : SchemaNode
  pointer : String
  nullable : Bool

namespace SchemaNode

/-- The node without at most `fuel` wrappers. -/
def unwrapWithin : Nat → SchemaNode → String → Unwrapped
  | _, .ref path, pointer => ⟨.ref path, pointer, false⟩
  | 0, .inline schema, pointer => ⟨.inline schema, pointer, schema.isNullable⟩
  | fuel + 1, .inline schema, pointer =>
    match schema.peel? with
    | none => ⟨.inline schema, pointer, schema.isNullable⟩
    | some peeled =>
      let inner := unwrapWithin fuel peeled.node
        (below (below pointer peeled.keyword) (toString peeled.index))
      { inner with nullable := schema.isNullable || peeled.nullable || inner.nullable }

/-- The node without its wrappers, of which there are fewer than nodes. -/
def unwrap (node : SchemaNode) (pointer : String) : Unwrapped :=
  unwrapWithin node.size node pointer

/-- A property or parameter with this schema admits `null`. -/
def admitsNull (node : SchemaNode) : Bool :=
  let unwrapped := node.unwrap ""
  unwrapped.nullable ||
    unwrapped.node.schema?.any fun schema =>
      schema.enumValues.any fun values => values.any Json.isNull

end SchemaNode

end ApiAtlas
