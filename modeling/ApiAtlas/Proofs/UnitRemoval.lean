import ApiAtlas.Proofs.DocumentSoundness
import ApiAtlas.Proofs.RouteSideBySide

namespace ApiAtlas

/-- The path item without the operations of a path that are among some units. -/
def PathItem.without (units : List Source) (path : String) (item : PathItem) : PathItem :=
  let kept (method : Method) (operation : Option Operation) : Option Operation :=
    if units.contains (.route method path) then none else operation
  { item with
    get := kept .get item.get
    post := kept .post item.post
    put := kept .put item.put
    delete := kept .delete item.delete
    patch := kept .patch item.patch
    options := kept .options item.options
    head := kept .head item.head
    trace := kept .trace item.trace }

/-- The document without the component schemas and operations that are among some units. -/
def Document.without (units : List Source) (document : Document) : Document :=
  { document with
    paths := document.paths.map fun (path, item) => (path, item.without units path)
    components := document.components.map fun components =>
      { components with schemas := components.schemas.filter fun (name, _) =>
          !units.contains (.component name) } }

/-- The units that a document is left without when it is resolved. -/
def Document.reported (settings : Settings) (document : Document) : List Source :=
  (document.resolve settings).2.2.map ReportEntry.source

/-- The registry without some components. -/
def Registry.without (gone : String → Bool) (registry : Registry) : Registry :=
  { registry with schemas := registry.schemas.filter fun (name, _) => !gone name }

/-- The endpoint with its path item reduced in the same way. -/
def Endpoint.without (units : List Source) (endpoint : Endpoint) : Endpoint :=
  { endpoint with item := endpoint.item.without units endpoint.path }

theorem PathItem.operation?_without (units : List Source) (path : String) (item : PathItem)
    (method : Method) : (item.without units path).operation? method =
      if units.contains (.route method path) then none else item.operation? method := by
  cases method <;> rfl

theorem Document.endpoints_without (units : List Source) (document : Document) :
    (document.without units).endpoints =
      (document.endpoints.filter fun endpoint => !units.contains endpoint.source).map
        (Endpoint.without units) := by
  unfold endpoints without
  simp only [List.flatMap_map, List.filter_flatMap, List.map_flatMap]
  congr 1
  funext ⟨path, item⟩
  simp only [PathItem.operation?_without]
  induction Method.all with
  | nil => rfl
  | cons method rest ih =>
    simp only [List.filterMap_cons]
    cases ho : item.operation? method with
    | none =>
      simp only [Option.map_none, ite_self]
      exact ih
    | some operation =>
      simp only [Option.map_some]
      have hsource : (Endpoint.mk path item method operation).source = .route method path := rfl
      by_cases hu : units.contains (.route method path) = true
      · rw [if_pos hu, List.filter_cons_of_neg (by rw [hsource, hu]; decide)]
        exact ih
      · rw [if_neg hu, List.filter_cons_of_pos (by simpa [hsource] using hu)]
        simp only [Option.map_some, List.map_cons, ih]
        rfl

/-- Resolving against a registry, and against it without some components. As long as none of these
comes in, both come to the same. -/
def removal (registry : Registry) (gone : String → Bool) : Pairing where
  left := registry
  right := registry.without gone
  move := id
  rel s t := t = { s with failed := [] }
  lost arena := ∃ name, gone name = true ∧ Entries.has arena.memo name = true
  lenient := True
  extensions := rfl
  lost_mono := fun ⟨name, hg, hm⟩ hmono => ⟨name, hg, hmono name hm⟩
  lost_lenient _ := trivial
  memo := by
    rintro s t rfl name
    simp
  failed := by
    rintro s t rfl name
    by_cases hf : s.failed.contains name = true
    · exact .inr ⟨trivial, hf⟩
    · exact .inl (by simpa using hf)
  schemas name := by
    have hget := Entries.get?_filter_keys (fun name => !gone name) registry.schemas name
    by_cases hg : gone name = true
    · exact .inr ⟨trivial, fun arena hm => ⟨name, hg, hm⟩⟩
    · refine .inl (hget.trans (if_pos ?_))
      simpa using hg
  written := by
    rintro s t rfl hs path name hn hm location
    by_cases hl : ∃ name, gone name = true ∧ Entries.has s.memo name = true
    · exact .inl hl
    · refine .inr (Registry.writtenComponent_congr (p := fun name => Entries.has s.memo name = true)
        (fun other ho => ?_) (fun other target ho ha => ?_) _ _ _ _ _ (fun other ho => ?_)
        (Registry.roomFor_keys_lt _ _) (Registry.roomFor_keys_lt _ _))
      · have hget := Entries.get?_filter_keys (fun name => !gone name) registry.schemas other
        refine hget.trans (if_pos ?_)
        by_contra hg
        exact hl ⟨other, by simpa using hg, ho⟩
      · obtain ⟨id, hi⟩ := Entries.has_iff.mp ho
        exact Entries.has_iff.mpr ⟨id, hs.aliased other id target hi ha⟩
      · cases hn.symm.trans ho
        exact hm
  model := by
    rintro s t rfl id _
    rw [Model.renumber_id, Option.map_id]
    rfl
  place := by
    rintro s t rfl
    rfl
  reserve := by
    rintro s t rfl scope
    rfl
  remember := by
    rintro s t rfl name id _ _ _ _
    rfl
  fill := by
    rintro s t rfl id _ _ model
    rw [Model.renumber_id]
    rfl

end ApiAtlas
