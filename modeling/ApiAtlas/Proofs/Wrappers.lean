import ApiAtlas.Resolve.Wrapper

namespace ApiAtlas

/-- The ways for a schema to be a wrapper, each with what it wraps. -/
inductive SchemaOf.Wraps (schema : Schema) (peeled : Peeled) : Prop
  /-- Beside annotations `allOf` has this branch only, and nothing else gives a shape. -/
  | sole (keyword : peeled.keyword = "allOf")
      (branch : (peeled.node, peeled.index) ∈ schema.allOf.zipIdx)
      (others : ∀ other ∈ schema.allOf, other.isAnnotation = true ∨ other = peeled.node)
      (composition : schema.composition = []) (enumValues : schema.enumValues = none)
      (nullable : peeled.nullable =
        schema.allOf.any fun branch => branch.schema?.any SchemaOf.isNullable)
  /-- Beside `null` the composition has this branch only. -/
  | null (keyword : peeled.keyword = schema.compositionKeyword)
      (branch : (peeled.node, peeled.index) ∈ schema.composition.zipIdx)
      (others : ∃ other ∈ schema.composition, other.isNullSchema = true)
      (allOf : schema.allOf = []) (nullable : peeled.nullable = true)

theorem exists_mem_zipIdx {α : Type} {items : List α} {item : α} (h : item ∈ items) :
    ∃ index, (item, index) ∈ items.zipIdx := by
  obtain ⟨index, hi⟩ := List.mem_iff_getElem?.mp h
  exact ⟨index, List.mk_mem_zipIdx_iff_getElem?.mpr hi⟩

theorem exists_zipIdx_iff {α : Type} {items : List α} {p : α → Prop} :
    (∃ pair ∈ items.zipIdx, p pair.1) ↔ ∃ item ∈ items, p item := by
  constructor
  · rintro ⟨pair, hm, hp⟩
    exact ⟨pair.1, List.fst_mem_of_mem_zipIdx hm, hp⟩
  · rintro ⟨item, hm, hp⟩
    obtain ⟨index, hi⟩ := exists_mem_zipIdx hm
    exact ⟨_, hi, hp⟩

theorem getElem?_findIdx?_of_filter {α : Type} {p : α → Bool} {items : List α} {only : α}
    (h : items.filter p = [only]) : items[(items.findIdx? p).getD 0]? = some only := by
  induction items with
  | nil => simp at h
  | cons first rest ih =>
    rw [List.findIdx?_cons]
    cases hf : p first with
    | true =>
      rw [List.filter_cons_of_pos hf, List.cons.injEq] at h
      simp [h.1]
    | false =>
      rw [List.filter_cons_of_neg (by simp [hf])] at h
      have hi := ih h
      cases hn : rest.findIdx? p with
      | none =>
        obtain ⟨hm, hp⟩ := List.mem_filter.mp (h ▸ List.mem_cons_self : only ∈ rest.filter p)
        simp [List.findIdx?_eq_none_iff.mp hn only hm] at hp
      | some index => simpa [hn] using hi

theorem SchemaNode.of_isAnnotation {node : SchemaNode} (h : node.isAnnotation = true) :
    ∃ schema, node = .inline schema ∧ schema.isAnnotation = true := by
  cases node with
  | ref path => cases h
  | inline schema => exact ⟨schema, rfl, h⟩

namespace SchemaOf

variable {schema : Schema} {peeled : Peeled}

theorem soleStructural?_eq_some {branch : SchemaNode} {index : Nat}
    (h : schema.soleStructural? = some (branch, index)) :
    (branch, index) ∈ schema.allOf.zipIdx ∧
      (∀ other ∈ schema.allOf, other.isAnnotation = true ∨ other = branch) ∧
      schema.composition = [] ∧ schema.enumValues = none := by
  unfold soleStructural? at h
  split at h
  next hc =>
    simp only [Bool.and_eq_true, List.isEmpty_iff, Option.isNone_iff_eq_none] at hc
    split at h
    next only ho =>
      cases Option.some.inj h
      refine ⟨(List.mem_filter.mp (ho ▸ List.mem_cons_self)).1, ?_, hc.1.1.1.1, hc.1.1.1.2⟩
      intro other hm
      obtain ⟨place, hp⟩ := exists_mem_zipIdx hm
      cases ha : other.isAnnotation with
      | true => exact .inl rfl
      | false =>
        have hf : (other, place) ∈ schema.allOf.zipIdx.filter fun pair =>
            !SchemaNode.isAnnotation pair.1 := List.mem_filter.mpr ⟨hp, by simp [ha]⟩
        rw [ho, List.mem_singleton] at hf
        exact .inr (Prod.mk.inj hf).1
    next => cases h
  next => cases h

theorem nullableWrapper?_eq_some {branch : SchemaNode}
    (h : schema.nullableWrapper? = some branch) :
    (∃ other ∈ schema.composition, other.isNullSchema = true) ∧
      schema.composition.filter (fun other => !other.isNullSchema) = [branch] := by
  unfold nullableWrapper? at h
  split at h
  next hn =>
    refine ⟨List.any_eq_true.mp hn, ?_⟩
    split at h
    next only ho =>
      cases Option.some.inj h
      exact ho
    next => cases h
  next => cases h

theorem wraps_of_peel? (h : schema.peel? = some peeled) :
    schema.properties = [] ∧ schema.Wraps peeled := by
  unfold peel? at h
  split at h
  next => cases h
  next hp =>
    refine ⟨by simpa using hp, ?_⟩
    split at h
    next =>
      obtain ⟨⟨branch, index⟩, hs, rfl⟩ := Option.map_eq_some_iff.mp h
      obtain ⟨hb, ho, hc, he⟩ := soleStructural?_eq_some hs
      exact .sole rfl hb ho hc he rfl
    next ha =>
      obtain ⟨branch, hs, rfl⟩ := Option.map_eq_some_iff.mp h
      obtain ⟨hn, hf⟩ := nullableWrapper?_eq_some hs
      refine .null rfl ?_ hn (by simpa using ha) rfl
      exact List.mem_zipIdx_iff_getElem?.mpr (getElem?_findIdx?_of_filter hf)

end SchemaOf

end ApiAtlas
