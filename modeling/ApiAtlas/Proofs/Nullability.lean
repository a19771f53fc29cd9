import ApiAtlas.Proofs.ResolutionDepth

namespace ApiAtlas

/-- A way for a schema to say that `null` is one of its values. -/
inductive NullWay
  /-- `nullable` is set. -/
  | flag
  /-- It is one of the types. -/
  | type
  /-- It is listed in `enum`. -/
  | value
  /-- It is a branch of `oneOf` or `anyOf`. -/
  | branch
  /-- An annotation beside the only other branch of `allOf` says so, by its flag or its types. -/
  | sibling
deriving Repr, DecidableEq

/-- The schema says in this way that `null` is one of its values. -/
def SchemaOf.SaysNull (schema : Schema) : NullWay → Prop
  | .flag => schema.nullable = some true
  | .type => ∃ types, schema.types = some types ∧ types.includesNull = true
  | .value => ∃ values, schema.enumValues = some values ∧ Json.null ∈ values
  | .branch => ∃ branch ∈ schema.oneOf ++ schema.anyOf, branch.isNullSchema = true
  | .sibling => schema.peel?.isSome = true ∧
      ∃ other, .inline other ∈ schema.allOf ∧ other.isAnnotation = true ∧ other.isNullable = true

/-- The schema is that of the node, or one that the node only wraps. -/
inductive SchemaNode.Reaches : SchemaNode → Schema → Prop
  | here (schema : Schema) : Reaches (.inline schema) schema
  | wrapped {schema inner : Schema} {peeled : Peeled} (peels : schema.peel? = some peeled)
      (reaches : Reaches peeled.node inner) : Reaches (.inline schema) inner

namespace SchemaOf

variable {schema : Schema} {peeled : Peeled}

theorem isNullable_iff :
    schema.isNullable = true ↔ schema.SaysNull .flag ∨ schema.SaysNull .type := by
  unfold isNullable SaysNull
  rw [Bool.or_eq_true, Option.any_eq_true]
  cases schema.nullable <;> simp

theorem enumValues_any_isNull_iff :
    (schema.enumValues.any fun values => values.any Json.isNull) = true ↔
      schema.SaysNull .value := by
  have hnull : ∀ value : Json, value.isNull = true ↔ value = .null := by
    intro value
    cases value <;> simp [Json.isNull]
  simp [SaysNull, Option.any_eq_true, hnull]

/-- A wrapper admits `null` by a branch or by an annotation, or what it wraps admits it anyway. -/
theorem nullable_of_peel? (h : schema.peel? = some peeled) (hn : peeled.nullable = true) :
    schema.SaysNull .branch ∨ schema.SaysNull .sibling ∨
      ∃ inner, peeled.node = .inline inner ∧ inner.isNullable = true := by
  obtain ⟨-, hw⟩ := wraps_of_peel? h
  cases hw with
  | sole _ _ others _ _ nullable =>
    rw [nullable, List.any_eq_true] at hn
    obtain ⟨branch, hm, hb⟩ := hn
    cases branch with
    | ref path => cases hb
    | inline other =>
      have hother : other.isNullable = true := hb
      apply Or.inr
      rcases others _ hm with ha | he
      · exact .inl ⟨by rw [h]; rfl, other, hm, ha, hother⟩
      · exact .inr ⟨other, he.symm, hother⟩
  | null _ _ others =>
    obtain ⟨branch, hm, hb⟩ := others
    refine .inl ⟨branch, ?_, hb⟩
    unfold composition at hm
    split at hm
    next => exact List.mem_append_right _ hm
    next => exact List.mem_append_left _ hm

/-- What a wrapper says is taken up. -/
theorem nullable_of_saysNull (h : schema.peel? = some peeled) {way : NullWay}
    (hs : schema.SaysNull way) : schema.isNullable = true ∨ peeled.nullable = true := by
  obtain ⟨-, hw⟩ := wraps_of_peel? h
  cases hw with
  | null _ _ _ _ nullable => exact .inr nullable
  | sole _ _ _ composition enumValues nullable =>
    cases way with
    | flag => exact .inl (isNullable_iff.mpr (.inl hs))
    | type => exact .inl (isNullable_iff.mpr (.inr hs))
    | value =>
      obtain ⟨values, hv, -⟩ := hs
      rw [enumValues] at hv
      cases hv
    | branch =>
      obtain ⟨branch, hm, -⟩ := hs
      have hnone : schema.oneOf ++ schema.anyOf = [] := by
        unfold SchemaOf.composition at composition
        split at composition
        next ho => simp [composition, List.isEmpty_iff.mp ho]
        next ho => simp [composition] at ho
      rw [hnone] at hm
      cases hm
    | sibling =>
      obtain ⟨-, other, hm, -, ho⟩ := hs
      rw [nullable]
      exact .inr (List.any_eq_true.mpr ⟨_, hm, ho⟩)

end SchemaOf

namespace SchemaNode

/-- `null` is admitted on the way through at most `fuel` wrappers. -/
def admitsNullWithin (fuel : Nat) (node : SchemaNode) (pointer : String) : Bool :=
  let unwrapped := unwrapWithin fuel node pointer
  unwrapped.nullable ||
    unwrapped.node.schema?.any fun schema =>
      schema.enumValues.any fun values => values.any Json.isNull

theorem admitsNullWithin_bare {schema : Schema} (h : schema.peel? = none) (fuel : Nat)
    (pointer : String) : admitsNullWithin fuel (.inline schema) pointer = true ↔
      schema.isNullable = true ∨ schema.SaysNull .value := by
  rw [← SchemaOf.enumValues_any_isNull_iff]
  cases fuel <;> simp [admitsNullWithin, unwrapWithin, schema?, h]

theorem admitsNullWithin_wrapper {schema : Schema} {peeled : Peeled}
    (h : schema.peel? = some peeled) (fuel : Nat) (pointer : String) :
    admitsNullWithin (fuel + 1) (.inline schema) pointer = true ↔
      schema.isNullable = true ∨ peeled.nullable = true ∨ admitsNullWithin fuel peeled.node
        (below (below pointer peeled.keyword) (toString peeled.index)) = true := by
  simp [admitsNullWithin, unwrapWithin, h, or_assoc]

theorem saysNull_of_bare {schema : Schema} (h : schema.peel? = none) :
    (∃ inner way, (SchemaNode.inline schema).Reaches inner ∧ inner.SaysNull way ∧
      (way = .branch → inner.peel?.isSome = true)) ↔
      schema.isNullable = true ∨ schema.SaysNull .value := by
  rw [SchemaOf.isNullable_iff]
  constructor
  · rintro ⟨inner, way, hr, hs, hb⟩
    cases hr with
    | wrapped peels => simp [h] at peels
    | here =>
      cases way with
      | flag => exact .inl (.inl hs)
      | type => exact .inl (.inr hs)
      | value => exact .inr hs
      | branch => simp [h] at hb
      | sibling => simp [SchemaOf.SaysNull, h] at hs
  · rintro ((hs | hs) | hs)
    · exact ⟨schema, .flag, .here _, hs, nofun⟩
    · exact ⟨schema, .type, .here _, hs, nofun⟩
    · exact ⟨schema, .value, .here _, hs, nofun⟩

theorem saysNull_of_wrapper {schema : Schema} {peeled : Peeled}
    (h : schema.peel? = some peeled) :
    (∃ inner way, (SchemaNode.inline schema).Reaches inner ∧ inner.SaysNull way ∧
      (way = .branch → inner.peel?.isSome = true)) ↔
      schema.isNullable = true ∨ peeled.nullable = true ∨
        ∃ inner way, peeled.node.Reaches inner ∧ inner.SaysNull way ∧
          (way = .branch → inner.peel?.isSome = true) := by
  have hwrapper : schema.peel?.isSome = true := by rw [h]; rfl
  constructor
  · rintro ⟨inner, way, hr, hs, hb⟩
    cases hr with
    | here => exact (SchemaOf.nullable_of_saysNull h hs).imp_right .inl
    | wrapped peels reaches =>
      rw [h] at peels
      cases peels
      exact .inr (.inr ⟨inner, way, reaches, hs, hb⟩)
  · rintro (hn | hn | ⟨inner, way, hr, hs, hb⟩)
    · rcases SchemaOf.isNullable_iff.mp hn with hs | hs
      · exact ⟨schema, .flag, .here _, hs, nofun⟩
      · exact ⟨schema, .type, .here _, hs, nofun⟩
    -- What the wrapper takes up was said by its branches, or by the schema it wraps.
    · rcases SchemaOf.nullable_of_peel? h hn with hs | hs | ⟨inner, hi, hn⟩
      · exact ⟨schema, .branch, .here _, hs, fun _ => hwrapper⟩
      · exact ⟨schema, .sibling, .here _, hs, fun _ => hwrapper⟩
      · have hr : (SchemaNode.inline schema).Reaches inner := .wrapped h (hi ▸ .here inner)
        rcases SchemaOf.isNullable_iff.mp hn with hs | hs
        · exact ⟨inner, .flag, hr, hs, nofun⟩
        · exact ⟨inner, .type, hr, hs, nofun⟩
    · exact ⟨inner, way, .wrapped h hr, hs, hb⟩

theorem admitsNullWithin_iff (fuel : Nat) : ∀ (node : SchemaNode) (pointer : String),
    node.size ≤ fuel → (admitsNullWithin fuel node pointer = true ↔
      ∃ schema way, node.Reaches schema ∧ schema.SaysNull way ∧
        (way = .branch → schema.peel?.isSome = true)) := by
  induction fuel with
  | zero =>
    intro node _ hsize
    have hone := node.one_le_size
    omega
  | succ fuel ih =>
    intro node pointer hsize
    cases node with
    | ref path =>
      constructor
      · intro h
        cases h
      · rintro ⟨_, _, hr, -⟩
        cases hr
    | inline schema =>
      cases hp : schema.peel? with
      | none => rw [admitsNullWithin_bare hp, saysNull_of_bare hp]
      | some peeled =>
        have hless : peeled.node.size < (SchemaNode.inline schema).size := SchemaOf.size_peel hp
        rw [admitsNullWithin_wrapper hp, ih peeled.node _ (by omega), saysNull_of_wrapper hp]

/-- A property or parameter admits `null` just where its schema, or one that it only wraps, says so;
but a `null` branch counts only where the schema that has it is a wrapper itself. -/
theorem admitsNull_iff (node : SchemaNode) : node.admitsNull = true ↔
    ∃ schema way, node.Reaches schema ∧ schema.SaysNull way ∧
      (way = .branch → schema.peel?.isSome = true) :=
  admitsNullWithin_iff node.size node "" (Nat.le_refl _)

/-- A union of two schemas and `null`. -/
def textCountOrNull : SchemaNode :=
  .inline { oneOf := [.inline { types := some (.single .string) },
    .inline { types := some (.single .integer) }, .inline { types := some (.single .null) }] }

/-- With two other branches a `null` branch is not taken up. -/
theorem textCountOrNull_admitsNull :
    (∃ schema way, textCountOrNull.Reaches schema ∧ schema.SaysNull way) ∧
      textCountOrNull.admitsNull = false := by
  refine ⟨⟨_, .branch, .here _, ?_⟩, by decide⟩
  exact ⟨.inline { types := some (.single .null) }, by simp, by decide⟩

end SchemaNode

end ApiAtlas
