import ApiAtlas.Proofs.DocumentSoundness
import Mathlib.Data.List.Perm.Subperm
import Mathlib.Data.List.Range
import Mathlib.Logic.Relation
import Mathlib.Order.WellFounded

namespace ApiAtlas

namespace Models

/-- What the model at a place is made of. -/
def parts (models : Models) (id : ModelId) : List Resolved :=
  ((models.get? id).map Model.children).getD []

/-- A model has another one in place. -/
def Contains (models : Models) (outer inner : ModelId) : Prop :=
  .value inner ∈ models.parts outer

variable {models : Models}

theorem contains_iff {outer inner : ModelId} : models.Contains outer inner ↔
    ∃ model, models.get? outer = some model ∧ .value inner ∈ model.children := by
  unfold Contains parts
  cases models.get? outer <;> simp

theorem not_transGen_contains (hw : WellFounded fun inner outer => models.Contains outer inner)
    (id : ModelId) : ¬ Relation.TransGen models.Contains id id :=
  fun hc => hw.transGen.irrefl.irrefl id (Relation.transGen_swap.mpr hc)

/-- Models that contain each other in a row are different ones, and so at most all there are. -/
theorem length_le_of_isChain (hw : WellFounded fun inner outer => models.Contains outer inner)
    {path : List ModelId} (hp : path.IsChain models.Contains)
    (hfound : ∀ id ∈ path, (models.get? id).isSome) : path.length ≤ models.nodes.length := by
  have hchain : path.IsChain (Relation.TransGen models.Contains) :=
    hp.imp fun _ _ hc => .single hc
  have hnodup : path.Nodup := by
    refine hchain.pairwise.imp fun {outer inner} hc => ?_
    rintro rfl
    exact not_transGen_contains hw outer hc
  have hrange : path ⊆ List.range models.nodes.length := by
    intro id hi
    obtain ⟨model, hm⟩ := Option.isSome_iff_exists.mp (hfound id hi)
    obtain ⟨hlt, _⟩ := List.getElem?_eq_some_iff.mp hm
    exact List.mem_range.mpr hlt
  have hlength := (List.Nodup.subperm hnodup hrange).length_le
  rwa [List.length_range] at hlength

end Models

theorem Arena.Settled.acc {arena : Arena} (hf : ({} : Arena).Filled arena) {id : ModelId}
    (h : arena.Settled id) : Acc (fun inner outer => arena.finish.Contains outer inner) id := by
  induction h with
  | @intro id model found _ ih =>
    refine .intro id fun inner hc => ?_
    obtain ⟨model', hm, hchild⟩ := Models.contains_iff.mp hc
    rw [Arena.get?_finish hf] at hm
    cases Option.some.inj (found.symm.trans hm)
    exact ih inner hchild

/-- Whatever a model contains was finished before it, wherever it stands. -/
theorem Arena.Rested.wellFounded {registry : Registry} {arena : Arena}
    (h : arena.Rested registry) :
    WellFounded fun inner outer => arena.finish.Contains outer inner := by
  refine ⟨fun id => .intro id fun inner hc => ?_⟩
  obtain ⟨model, hm, hchild⟩ := Models.contains_iff.mp hc
  rw [Arena.get?_finish h.filled] at hm
  have hsettled : arena.Settled inner := h.sound.linked id model hm _ hchild
  exact hsettled.acc h.filled

namespace Atlas

variable {settings : Settings} {document : Document} {atlas : Atlas}

/-- The models of an atlas that contain each other nest: from none of them does one come back to it
without a reference, and no row of them is longer than all models together. -/
theorem contains_wellFounded (h : Atlas.of settings document = .ok atlas) :
    (WellFounded fun inner outer => atlas.models.Contains outer inner) ∧
      (∀ id, ¬ Relation.TransGen atlas.models.Contains id id) ∧
      ∀ path : List ModelId, path.IsChain atlas.models.Contains →
        (∀ id ∈ path, (atlas.models.get? id).isSome) →
        path.length ≤ atlas.models.nodes.length := by
  have hrested := Document.finalArena_rested settings document
  have hw : WellFounded fun inner outer => atlas.models.Contains outer inner := by
    rw [(of_eq_ok h).1]
    exact hrested.wellFounded
  exact ⟨hw, Models.not_transGen_contains hw, fun path => Models.length_le_of_isChain hw⟩

/-- A component that refers to itself, and one made of it that has the first one's part in place. -/
def herdDocument : Document where
  openapi := "3.0.3"
  info := { title := "Herd", version := "1" }
  components := some { schemas := [
    ("Animal", .inline { properties := [("tags", .inline { types := some (.single .array) }),
      ("mother", .ref "#/components/schemas/Animal")] }),
    ("Cow", .inline { allOf := [.ref "#/components/schemas/Animal",
      .inline { properties := [("bell", .inline { types := some (.single .string) })] }] })] }

theorem contains_wellFounded_herd :
    ∃ atlas, Atlas.of {} herdDocument = .ok atlas ∧
      .ref "Animal" 0 ∈ atlas.models.parts 0 ∧ atlas.models.Contains 3 1 ∧
      atlas.models.Contains 1 2 ∧ ¬ Relation.TransGen atlas.models.Contains 3 3 := by
  have hok : (Atlas.of {} herdDocument).toOption.any (fun atlas =>
      (atlas.models.parts 0).contains (.ref "Animal" 0) &&
        (atlas.models.parts 3).contains (.value 1) &&
          (atlas.models.parts 1).contains (.value 2)) = true := by decide +kernel
  obtain ⟨atlas, h, hparts⟩ := exists_of_any hok
  simp only [Bool.and_eq_true, List.contains_iff_mem] at hparts
  obtain ⟨⟨href, houter⟩, hinner⟩ := hparts
  exact ⟨atlas, h, href, houter, hinner, (contains_wellFounded h).2.1 3⟩

end Atlas

end ApiAtlas
