import ApiAtlas.Naming.Site
import ApiAtlas.Report
import ApiAtlas.Resolve.Arena
import ApiAtlas.Resolve.Choice
import ApiAtlas.Resolve.Wrapper

namespace ApiAtlas

/-- Where a schema stands: the context and scope that its model gets, and its location. -/
structure Position where
  context : Context
  scope : List String
  pointer : String
deriving Repr, DecidableEq, Inhabited

/-- The same position at another location. -/
def Position.at (pos : Position) (pointer : String) : Position := { pos with pointer }

/-- What is being followed: components that are only other names, and unfinished components whose
written properties are being merged, outermost first. -/
structure Trail where
  aliases : List String := []
  inheriting : List String := []
deriving Repr, DecidableEq, Inhabited

/-- An object in the making. -/
structure Merged where
  properties : Entries Property := []
  required : List String := []
  additional : Bool := false
  /-- Some part declares an object. -/
  shaped : Bool := false
deriving Repr, DecidableEq, Inhabited

namespace Merged

/-- A later definition of a property takes the place of an earlier one; what once was required
stays so. -/
def insert (merged : Merged) (property : Property) : Merged :=
  let earlier := (Entries.get? merged.properties property.name).any Property.required
  { merged with
    properties := Entries.set property.name
      { property with required := earlier || property.required } merged.properties }

/-- The properties, required where some part says so. -/
def finish (merged : Merged) : List Property :=
  merged.properties.map fun (_, property) =>
    { property with required := property.required || merged.required.contains property.name }

end Merged

/-- What schemas are resolved against: the components, and the extensions that open an enum. -/
structure Registry where
  schemas : Entries SchemaNode
  openExtensions : List String
deriving Repr, Inhabited

/-- Keeping what is being followed: in the state of `m`, or in values of `τ` that are handed on. -/
class Following (m : Type → Type) (τ : outParam Type) where
  aliases : τ → m (List String)
  inheriting : τ → m (List String)
  /-- Work while one more component that is only another name is being followed. -/
  followAlias : {α : Type} → τ → String → (τ → m α) → m α
  /-- Work while the written properties of one more unfinished component are being merged. -/
  inherit : {α : Type} → τ → String → (τ → m α) → m α
  /-- Work within a component, for which nothing is being followed yet. -/
  afresh : {α : Type} → τ → (τ → m α) → m α

/-- Hand on what is being followed. -/
abbrev Following.handedOn {m : Type → Type} [Monad m] : Following m Trail where
  aliases trail := pure trail.aliases
  inheriting trail := pure trail.inheriting
  followAlias trail name work := work { trail with aliases := trail.aliases ++ [name] }
  inherit trail name work := work { trail with inheriting := trail.inheriting ++ [name] }
  afresh _ work := work {}

instance : Following Resolving Trail := .handedOn

/-- The ways in which one node leads to others: resolving a node, building the model of a schema,
and merging a schema that is at a location into an object. References may lead anywhere, so what is
called for other nodes is an argument of the functions below; `callsWithin` closes the circle. -/
structure Calls (m : Type → Type := Resolving) (τ : Type := Trail) where
  resolve : τ → SchemaNode → Position → m Resolved
  build : τ → Schema → Position → m Model
  merge : τ → Schema → String → Position → Merged → m Merged

/-- Calls that all fail. -/
def Calls.failing {m : Type → Type} [MonadExcept ResolveError m] {τ : Type} : Calls m τ where
  resolve _ _ pos := throw (.schemaShape "nested too deeply" pos.pointer)
  build _ _ pos := throw (.schemaShape "nested too deeply" pos.pointer)
  merge _ _ pointer _ _ := throw (.schemaShape "nested too deeply" pointer)

namespace Registry

variable {m : Type → Type} [Monad m] [MonadExcept ResolveError m] [MonadState Arena m]
  [MonadLiftT (Except ResolveError) m] {τ : Type} [Following m τ]

/-- The model of a component. If it was not met before, it is another name for what its body refers
to, or its body is built at a place of its own. -/
def componentId (registry : Registry) (calls : Calls m τ) (trail : τ)
    (name reference location : String) : m ModelId := do
  let arena ← get
  if let some id := Entries.get? arena.memo name then
    return id
  if arena.failed.contains name then
    throw (.failedRef reference location)
  let aliases : List String ← Following.aliases trail
  if aliases.contains name then
    throw (.circularRef (aliases ++ [name]) location)
  let some body := Entries.get? registry.schemas name
    | throw (.unresolvedRef reference location)
  let unwrapped := body.unwrap (Section.schemas.pointer name)
  let pos : Position := ⟨.named name, [], unwrapped.pointer⟩
  match unwrapped.node with
  | .ref path =>
    let target ← Following.followAlias trail name fun trail =>
      calls.resolve trail (.ref path) pos
    modify fun arena => arena.remember name target.id
    pure target.id
  | .inline schema =>
    let id ← Resolving.reserve []
    modify fun arena => arena.remember name id
    let model ← Following.afresh trail fun trail => calls.build trail schema pos
    Resolving.fill id model
    pure id

/-- The model of a component where what is being followed is handed on. -/
theorem componentId_eq (registry : Registry) (calls : Calls) (trail : Trail)
    (name reference location : String) :
    registry.componentId calls trail name reference location = (do
      let arena ← get
      if let some id := Entries.get? arena.memo name then
        return id
      if arena.failed.contains name then
        throw (.failedRef reference location)
      if trail.aliases.contains name then
        throw (.circularRef (trail.aliases ++ [name]) location)
      let some body := Entries.get? registry.schemas name
        | throw (.unresolvedRef reference location)
      let unwrapped := body.unwrap (Section.schemas.pointer name)
      let pos : Position := ⟨.named name, [], unwrapped.pointer⟩
      match unwrapped.node with
      | .ref path =>
        let target ← calls.resolve { trail with aliases := trail.aliases ++ [name] } (.ref path) pos
        modify fun arena => arena.remember name target.id
        pure target.id
      | .inline schema =>
        let id ← Resolving.reserve []
        modify fun arena => arena.remember name id
        let model ← calls.build {} schema pos
        Resolving.fill id model
        pure id : Resolving ModelId) :=
  rfl

/-- The model that a reference leads to: that of a component, made when the component is first met. -/
def resolveRef (registry : Registry) (calls : Calls m τ) (trail : τ) (path location : String) :
    m Resolved := do
  let name ← Section.schemas.parseName path location
  let id ← registry.componentId calls trail name path location
  pure (.ref name id)

/-- One property of an object whose schema is at `parent`. Whether it is required is left open. -/
def resolveProperty (calls : Calls m τ) (trail : τ) (parent : String) (pos : Position)
    (name : String) (node : SchemaNode) : m Property := do
  let pointer := below (below parent "properties") (escapeToken name)
  let model ← calls.resolve trail node
    ⟨(Site.property pos.context name).context, pos.scope, pointer⟩
  pure {
    name
    model
    required := false
    nullable := node.admitsNull
    description := node.schema?.bind SchemaOf.description
    readOnly := (node.schema?.bind SchemaOf.readOnly).getD false
    writeOnly := (node.schema?.bind SchemaOf.writeOnly).getD false }

/-- An object by its own properties. -/
def buildObject (calls : Calls m τ) (trail : τ) (schema : Schema) (pos : Position) :
    m Model := do
  let properties ← schema.properties.mapM fun (name, node) => do
    let property ← resolveProperty calls trail pos.pointer pos name node
    pure { property with required := schema.required.contains name }
  pure (.object ⟨pos.context, schema.description, properties,
    schema.allowsAdditional? == some true⟩)

/-- The text of a component while its body is not built: what its name leads to among the
components. `fuel` is more than their number. -/
def writtenComponent (registry : Registry) :
    Nat → List String → String → String → Except ResolveError (String × Schema)
  | 0, _, path, location => .error (.unresolvedRef path location)
  | fuel + 1, seen, path, location => do
    let name ← Section.schemas.parseName path location
    if seen.contains name then
      throw (.circularRef (seen ++ [name]) location)
    match Entries.get? registry.schemas name with
    | none => throw (.unresolvedRef path location)
    | some (.inline schema) => pure (name, schema)
    | some (.ref next) =>
      registry.writtenComponent fuel (seen ++ [name]) next (Section.schemas.pointer name)

/-- Merge the written properties of a component that is still being built. -/
def mergeUnfinished (registry : Registry) (calls : Calls m τ) (trail : τ) (path location : String)
    (pos : Position) (merged : Merged) : m Merged := do
  let (name, body) ←
    registry.writtenComponent (registry.schemas.length + 1) [] path location
  let inheriting : List String ← Following.inheriting trail
  if inheriting.contains name then
    throw (.circularRef (inheriting ++ [name]) location)
  if !body.isObjectCompatible then
    throw (.schemaShape ("allOf branch " ++ path ++ " is not an object") location)
  Following.inherit trail name fun trail =>
    calls.merge trail body (Section.schemas.pointer name) pos merged

/-- The same where what is being followed is handed on. -/
theorem mergeUnfinished_eq (registry : Registry) (calls : Calls) (trail : Trail)
    (path location : String) (pos : Position) (merged : Merged) :
    registry.mergeUnfinished calls trail path location pos merged = (do
      let (name, body) ←
        registry.writtenComponent (registry.schemas.length + 1) [] path location
      if trail.inheriting.contains name then
        throw (.circularRef (trail.inheriting ++ [name]) location)
      if !body.isObjectCompatible then
        throw (.schemaShape ("allOf branch " ++ path ++ " is not an object") location)
      calls.merge { trail with inheriting := trail.inheriting ++ [name] } body
        (Section.schemas.pointer name) pos merged : Resolving Merged) :=
  rfl

/-- Merge the properties of a component: those of its model, or the written ones while the component
is still being built. -/
def mergeComponent (registry : Registry) (calls : Calls m τ) (trail : τ) (path location : String)
    (pos : Position) (merged : Merged) : m Merged := do
  let target ← registry.resolveRef calls trail path location
  let arena ← get
  match arena.model? target.id with
  | some (.object object) =>
    pure (object.properties.foldl Merged.insert
      { merged with shaped := true, additional := merged.additional || object.additional })
  | some .freeForm => pure merged
  | some _ => throw (.schemaShape ("allOf branch " ++ path ++ " is not an object") location)
  | none => registry.mergeUnfinished calls trail path location pos merged

/-- Merge a branch of `allOf`. -/
def mergeBranch (registry : Registry) (calls : Calls m τ) (trail : τ) (pointer : String)
    (pos : Position) (merged : Merged) (branch : SchemaNode × Nat) : m Merged :=
  let location := below (below pointer "allOf") (toString branch.2)
  match branch.1 with
  | .ref path => registry.mergeComponent calls trail path location pos merged
  | .inline schema =>
    if schema.isAnnotation then pure merged
    else if schema.isObjectCompatible then calls.merge trail schema location pos merged
    else throw (.schemaShape "allOf branch is not an object" location)

/-- The schema itself declares an object. -/
def declaresObject (schema : Schema) : Bool :=
  schema.types == some (.single .object) || !schema.properties.isEmpty ||
    schema.allowsAdditional?.isSome

/-- Merge the branches of a schema that is at `pointer`, then its own properties. -/
def mergeSchema (registry : Registry) (calls : Calls m τ) (trail : τ) (schema : Schema)
    (pointer : String) (pos : Position) (merged : Merged) : m Merged := do
  let merged ← schema.allOf.zipIdx.foldlM
    (registry.mergeBranch calls trail pointer pos) merged
  let merged := { merged with shaped := merged.shaped || declaresObject schema }
  let merged ← schema.properties.foldlM (fun merged (name, node) => do
    let property ← resolveProperty calls trail pointer pos name node
    pure (merged.insert property)) merged
  pure { merged with
    required := schema.required.foldl
      (fun names name => if names.contains name then names else names ++ [name]) merged.required
    additional := merged.additional || schema.allowsAdditional? == some true }

/-- An object by `allOf`. -/
def buildAllOf (registry : Registry) (calls : Calls m τ) (trail : τ) (schema : Schema)
    (pos : Position) : m Model := do
  if !schema.isObjectCompatible then
    throw (.schemaShape "allOf is combined with a non-object keyword" pos.pointer)
  let merged ← registry.mergeSchema calls trail schema pos.pointer pos {}
  if merged.shaped then
    pure (.object ⟨pos.context, schema.description, merged.finish, merged.additional⟩)
  else pure .freeForm

/-- The cases of a composition: one for each branch that is not `null`. A label that is taken gets
the number of its case. -/
def unionCases (calls : Calls m τ) (trail : τ) (schema : Schema) (pos : Position) :
    List (SchemaNode × Nat) → List Case → m (List Case)
  | [], cases => pure cases
  | (branch, index) :: rest, cases =>
    if branch.isNullSchema then unionCases calls trail schema pos rest cases
    else do
      let n := cases.length + 1
      let wanted := caseLabel branch schema.discriminator n
      let label :=
        if cases.any (·.label == wanted) then wanted ++ toString n else wanted
      let context := (Site.case pos.context label).context
      let pointer := below (below pos.pointer schema.compositionKeyword) (toString index)
      let model ← calls.resolve trail branch ⟨context, pos.scope, pointer⟩
      unionCases calls trail schema pos rest (cases ++ [⟨label, context, model⟩])

/-- A union by `oneOf` or `anyOf`. -/
def buildUnion (calls : Calls m τ) (trail : τ) (schema : Schema) (pos : Position) :
    m Model := do
  let cases ← unionCases calls trail schema pos schema.composition.zipIdx []
  if cases.isEmpty then pure .freeForm
  else
    pure (.union ⟨pos.context, schema.description, cases,
      schema.discriminator.map Discriminator.propertyName,
      schema.defaultValue.map Json.rawText⟩)

/-- An enum of the given values. -/
def buildEnum (registry : Registry) (schema : Schema) (values : List Json) (pos : Position) :
    Except ResolveError Model := do
  match collectEnum none [] values with
  | .error reason => throw (.schemaShape reason pos.pointer)
  | .ok (none, _) => throw (.schemaShape "enum declares no values" pos.pointer)
  | .ok (some carrier, texts) =>
    let fallback := (schema.defaultValue.filter fun v => !v.isNull).map Json.rawText
    if isFlagged schema.extensions registry.openExtensions then
      pure (.enum ⟨.extensible, pos.context, texts, fallback, schema.description⟩)
    else
      pure (.enum ⟨.closed carrier, pos.context, texts, fallback.filter texts.contains,
        schema.description⟩)

/-- The model of a schema that is neither reference nor wrapper; `several` is the one for more than
one type. -/
def classify (registry : Registry) (calls : Calls m τ) (several : m Model) (trail : τ)
    (schema : Schema) (pos : Position) : m Model := do
  let types := schema.nonNullTypes
  if !schema.allOf.isEmpty then
    return ← registry.buildAllOf calls trail schema pos
  if !schema.properties.isEmpty || schema.allowsAdditional?.isSome then
    return ← buildObject calls trail schema pos
  if types == [.array] || (types.isEmpty && schema.items.isSome) then
    let element ← match schema.items with
      | some items => calls.resolve trail items (pos.at (below pos.pointer "items"))
      | none => Resolving.freeForm pos.scope
    return .collection (if schema.uniqueItems.getD false then .set element else .list element)
  if let some value := schema.additionalSchema? then
    let element ← calls.resolve trail value (pos.at (below pos.pointer "additionalProperties"))
    return .collection (.map element)
  if let some values := schema.openStrings? then
    return .enum ⟨.extensible, pos.context, values, schema.defaultValue.map Json.rawText,
      schema.description⟩
  if !schema.composition.isEmpty then
    return ← buildUnion calls trail schema pos
  if let some values := schema.enumSource? registry.openExtensions then
    return ← registry.buildEnum schema values pos
  if schema.format == some "binary" && (types.isEmpty || types == [.string]) then
    return .binary
  match types with
  | [] => pure .freeForm
  | [type] =>
    match type.primitiveKind? with
    | some kind => pure (.primitive (.ofDefault kind schema.defaultValue))
    | none => pure .freeForm
  | _ => several

/-- The cases of several types: each is the schema with that type alone. -/
def typeCases (registry : Registry) (calls : Calls m τ) (trail : τ) (schema : Schema)
    (pos : Position) (types : List (SchemaType × Nat)) : m (List Case) :=
  types.mapM fun (type, index) => do
    let label := "Case" ++ toString (index + 1)
    let context := (Site.case pos.context label).context
    let pointer := below (below pos.pointer "type") (toString index)
    let id ← Resolving.reserve pos.scope
    let model ← registry.classify calls (pure .freeForm) trail
      { schema with types := some (.single type), nullable := none } ⟨context, pos.scope, pointer⟩
    Resolving.fill id model
    pure ⟨label, context, .value id⟩

/-- A union by several types. -/
def buildTypeUnion (registry : Registry) (calls : Calls m τ) (trail : τ) (schema : Schema)
    (pos : Position) : m Model := do
  let cases ← registry.typeCases calls trail schema pos schema.nonNullTypes.zipIdx
  pure (.union ⟨pos.context, schema.description, cases, none,
    schema.defaultValue.map Json.rawText⟩)

/-- The model of a schema that is neither reference nor wrapper. -/
def buildSchema (registry : Registry) (calls : Calls m τ) (trail : τ) (schema : Schema)
    (pos : Position) : m Model :=
  registry.classify calls (registry.buildTypeUnion calls trail schema pos) trail schema pos

/-- The model of a node: that of a component, or one at a place of its own. -/
def resolveNode (registry : Registry) (calls : Calls m τ) (trail : τ) (node : SchemaNode)
    (pos : Position) : m Resolved := do
  let unwrapped := node.unwrap pos.pointer
  match unwrapped.node with
  | .ref path => registry.resolveRef calls trail path unwrapped.pointer
  | .inline schema =>
    let id ← Resolving.reserve pos.scope
    let model ← calls.build trail schema (pos.at unwrapped.pointer)
    Resolving.fill id model
    pure (.value id)

mutual

/-- Resolve a node, calls nested `depth` deep left to `floor`. -/
def resolveWithin (registry : Registry) (floor : Calls m τ) :
    Nat → τ → SchemaNode → Position → m Resolved
  | 0, trail, node, pos => floor.resolve trail node pos
  | depth + 1, trail, node, pos =>
    registry.resolveNode
      ⟨registry.resolveWithin floor depth, registry.buildWithin floor depth,
        registry.mergeWithin floor depth⟩ trail node pos

/-- Build a schema, calls nested `depth` deep left to `floor`. -/
def buildWithin (registry : Registry) (floor : Calls m τ) :
    Nat → τ → Schema → Position → m Model
  | 0, trail, schema, pos => floor.build trail schema pos
  | depth + 1, trail, schema, pos =>
    registry.buildSchema
      ⟨registry.resolveWithin floor depth, registry.buildWithin floor depth,
        registry.mergeWithin floor depth⟩ trail schema pos

/-- Merge a schema, calls nested `depth` deep left to `floor`. -/
def mergeWithin (registry : Registry) (floor : Calls m τ) :
    Nat → τ → Schema → String → Position → Merged → m Merged
  | 0, trail, schema, pointer, pos, merged => floor.merge trail schema pointer pos merged
  | depth + 1, trail, schema, pointer, pos, merged =>
    registry.mergeSchema
      ⟨registry.resolveWithin floor depth, registry.buildWithin floor depth,
        registry.mergeWithin floor depth⟩ trail schema pointer pos merged

end

/-- Calls that may be nested `depth` deep. -/
def callsWithin (registry : Registry) (floor : Calls m τ) (depth : Nat) : Calls m τ :=
  ⟨registry.resolveWithin floor depth, registry.buildWithin floor depth,
    registry.mergeWithin floor depth⟩

/-- One level of calls: each does its own work, and leaves other nodes to the calls below it. -/
def step (registry : Registry) (calls : Calls m τ) : Calls m τ :=
  ⟨registry.resolveNode calls, registry.buildSchema calls, registry.mergeSchema calls⟩

theorem callsWithin_zero (registry : Registry) (floor : Calls m τ) :
    registry.callsWithin floor 0 = floor := by
  cases floor
  simp only [callsWithin, Calls.mk.injEq]
  refine ⟨?_, ?_, ?_⟩
  · funext trail node pos
    rw [resolveWithin]
  · funext trail schema pos
    rw [buildWithin]
  · funext trail schema pointer pos merged
    rw [mergeWithin]

theorem callsWithin_succ (registry : Registry) (floor : Calls m τ) (depth : Nat) :
    registry.callsWithin floor (depth + 1) = registry.step (registry.callsWithin floor depth) := by
  simp only [callsWithin, step, Calls.mk.injEq]
  refine ⟨?_, ?_, ?_⟩
  · funext trail node pos
    rw [resolveWithin]
  · funext trail schema pos
    rw [buildWithin]
  · funext trail schema pointer pos merged
    rw [mergeWithin]

/-- Calls that all fail, where what is being followed is handed on. -/
def noCalls : Calls := .failing

/-- A depth that no resolution of a node of this size reaches. Each component is entered once;
within it, each unfinished component is merged once on a way down; between two of these the nodes
become smaller, and components that are only other names follow each other at most once. -/
def budget (registry : Registry) (size : Nat) : Nat :=
  let names := registry.schemas.length
  let nodes := SchemaNode.sizeOfEntries registry.schemas + size
  (names + 2) * (names + 2) * (2 * (names + nodes) + 8)

/-- The model of a node. -/
def resolve (registry : Registry) (node : SchemaNode) (pos : Position) : Resolving Resolved :=
  registry.resolveWithin noCalls (registry.budget node.size) ({} : Trail) node pos

/-- The model of a component, at its own location. -/
def component (registry : Registry) (name : String) : Resolving ModelId :=
  let pointer := Section.schemas.pointer name
  registry.componentId (registry.callsWithin noCalls (registry.budget 1)) ({} : Trail) name pointer
    pointer

/-- Resolve some components in order. One that fails is left out, and what it added with it. -/
def resolveNames (registry : Registry) : List String → Arena → Report × Arena
  | [], arena => ([], arena)
  | name :: rest, arena =>
    if Entries.has arena.memo name then registry.resolveNames rest arena
    else
      match Resolving.attempt (registry.component name) arena with
      | (.ok _, arena) => registry.resolveNames rest arena
      | (.error error, arena) =>
        let (report, arena) :=
          registry.resolveNames rest { arena with failed := arena.failed ++ [name] }
        (⟨.component name, error⟩ :: report, arena)

/-- Resolve all components in the order of the document. -/
def resolveComponents (registry : Registry) (arena : Arena) : Report × Arena :=
  registry.resolveNames (Entries.keys registry.schemas) arena

end Registry

end ApiAtlas
