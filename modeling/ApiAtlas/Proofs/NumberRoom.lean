import ApiAtlas.Proofs.BareNames
import ApiAtlas.Proofs.NumberedTexts
import ApiAtlas.Proofs.StrictNames
import Mathlib.Data.List.Perm.Subperm

namespace ApiAtlas

/-- If no number is free, the names with all of the numbers are taken. -/
theorem mem_taken_of_firstFree_eq_none {taken : List String} {base : String} (tries : Nat) :
    ∀ {n : Nat}, firstFree taken base n tries = none →
      ∀ number, n ≤ number → number < n + tries → base ++ toString number ∈ taken := by
  induction tries with
  | zero =>
    intro n _ number hle hlt
    omega
  | succ tries ih =>
    intro n h number hle hlt
    rw [firstFree] at h
    split at h
    next ht =>
      rcases Nat.eq_or_lt_of_le hle with rfl | hle
      · simpa using ht
      · exact ih h number hle (by omega)
    next => cases h

/-- A text and some numbers behind it are all different. -/
theorem nodup_numbered (base : String) (n tries : Nat) :
    (base :: (List.range' n tries).map fun number => base ++ toString number).Nodup := by
  have hnumbers : (List.range' n tries).Nodup := List.nodup_range' 1
  refine List.nodup_cons.mpr ⟨fun hm => ?_, hnumbers.map fun _ _ => append_toString_inj.mp⟩
  obtain ⟨number, -, he⟩ := List.mem_map.mp hm
  exact Nat.repr_ne_empty (String.append_eq_left_iff.mp he)

/-- Among a name and its numbers is one that is not taken, if there are more of these than names
taken. -/
theorem exists_firstFree {taken cover : List String} {base : String} {n tries : Nat}
    (hcover : taken ⊆ cover) (hbase : base ∈ taken) (hlength : cover.length ≤ tries) :
    ∃ identifier, firstFree taken base n tries = some identifier := by
  cases h : firstFree taken base n tries with
  | some identifier => exact ⟨identifier, rfl⟩
  | none =>
    have hall : base :: (List.range' n tries).map (fun number => base ++ toString number) ⊆
        cover := by
      refine List.cons_subset.mpr ⟨hcover hbase, fun name hm => hcover ?_⟩
      obtain ⟨number, hrange, rfl⟩ := List.mem_map.mp hm
      obtain ⟨hle, hlt⟩ := List.mem_range'_1.mp hrange
      exact mem_taken_of_firstFree_eq_none tries h number hle hlt
    have hle := (List.Nodup.subperm (nodup_numbered base n tries) hall).length_le
    simp only [List.length_cons, List.length_map, List.length_range'] at hle
    omega

namespace Candidate

variable {naming : NamingSettings} {candidates : List Candidate} {candidate : Candidate}
  {taken cover : List String}

theorem settle_of_room (hs : naming.strict = false) (hcover : taken ⊆ cover)
    (hlength : cover.length < naming.maxSuffix) :
    ∃ identifier, settle naming candidates taken candidate = .ok identifier := by
  unfold settle
  split
  next => exact ⟨_, rfl⟩
  next =>
    split
    next hstrict => simp [hs] at hstrict
    next =>
      split
      next => exact ⟨_, rfl⟩
      next ht =>
        have hbase : candidate.name ∈ taken := by simpa using ht
        obtain ⟨identifier, hfree⟩ :=
          exists_firstFree (n := 2) hcover hbase (Nat.le_sub_one_of_lt hlength)
        rw [hfree]
        exact ⟨identifier, rfl⟩

/-- The candidates that do not ask alone for their names. -/
def sharers (candidates rest : List Candidate) : List Candidate :=
  rest.filter fun candidate => isShared candidates candidate.name

/-- All candidates are given identifiers where those taken and the candidates of shared names are
together no more than the last number says. A candidate of a name of its own takes none but that,
which was taken from the start. -/
theorem settleAll_of_room (hs : naming.strict = false) (rest : List Candidate) :
    ∀ {taken cover : List String}, taken ⊆ cover →
      (∀ candidate ∈ rest, isShared candidates candidate.name = false → candidate.name ∈ taken) →
      cover.length + (sharers candidates rest).length ≤ naming.maxSuffix →
        ∃ settled, settleAll naming candidates taken rest = .ok settled := by
  induction rest with
  | nil => exact fun _ _ _ => ⟨[], rfl⟩
  | cons candidate rest ih =>
    intro taken cover hcover hsole hroom
    have hrest (identifier : String) : ∀ other ∈ rest,
        isShared candidates other.name = false → other.name ∈ identifier :: taken :=
      fun other hm hn => List.mem_cons_of_mem _ (hsole other (List.mem_cons_of_mem _ hm) hn)
    by_cases hshared : isShared candidates candidate.name = true
    · have hcons : sharers candidates (candidate :: rest) = candidate :: sharers candidates rest :=
        List.filter_cons_of_pos hshared
      rw [hcons, List.length_cons] at hroom
      obtain ⟨identifier, hsettle⟩ : ∃ identifier,
          settle naming candidates taken candidate = .ok identifier :=
        settle_of_room hs hcover (by omega)
      have hmore : identifier :: taken ⊆ identifier :: cover := List.cons_subset_cons _ hcover
      obtain ⟨settled, hall⟩ := ih hmore (hrest identifier) (by rw [List.length_cons]; omega)
      rw [settleAll, hsettle]
      simp only [bind, Except.bind, hall]
      exact ⟨_, rfl⟩
    -- The name is in the cover from the start, so that the cover need not grow for it.
    · have hcons : sharers candidates (candidate :: rest) = sharers candidates rest :=
        List.filter_cons_of_neg hshared
      rw [Bool.not_eq_true] at hshared
      rw [hcons] at hroom
      have hown : candidate.name ∈ cover := hcover (hsole candidate List.mem_cons_self hshared)
      obtain ⟨settled, hall⟩ :=
        ih (List.cons_subset.mpr ⟨hown, hcover⟩) (hrest candidate.name) hroom
      rw [settleAll, settle_of_not_shared hshared]
      simp only [bind, Except.bind, hall]
      exact ⟨_, rfl⟩

theorem length_sole_add_sharers (candidates : List Candidate) :
    (sole candidates).length + (sharers candidates candidates).length = candidates.length := by
  have hsole : (sole candidates).length =
      (candidates.filter fun candidate => !isShared candidates candidate.name).length := by
    rw [sole, List.filter_map, List.length_map]
    rfl
  rw [hsole, Nat.add_comm, sharers]
  exact (List.length_eq_length_filter_add _).symm

end Candidate

namespace Models

open Candidate

/-- Without strict settings, models are all given names if no more of them need one than the last
number says. Whatever the settings, a model that is given one has the name that it asks for, or that
name with a number from 2 to the last one. -/
theorem assign_of_room (naming : NamingSettings) (models : Models) :
    (naming.strict = false → models.nameable.length ≤ naming.maxSuffix →
      ∃ names, models.assign naming = .ok names) ∧
    ∀ names, models.assign naming = .ok names →
      List.Forall₂ (fun candidate entry => entry.1 = candidate.id ∧
          (entry.2.identifier = candidate.name ∨ candidate.Numbers naming entry.2.identifier))
        (qualified naming models) names := by
  refine ⟨fun hs hle => ?_, fun names h => ?_⟩
  · have hlength : (qualified naming models).length = models.nameable.length := by
      simpa using congrArg List.length (ids_qualified naming models)
    have hsole : ∀ candidate ∈ qualified naming models,
        isShared (qualified naming models) candidate.name = false →
          candidate.name ∈ sole (qualified naming models) := fun candidate hm hn =>
      List.mem_filter.mpr ⟨List.mem_map_of_mem hm, by simp [hn]⟩
    have hroom := length_sole_add_sharers (qualified naming models)
    obtain ⟨settled, hall⟩ := settleAll_of_room hs (qualified naming models)
      (List.Subset.refl _) hsole (by omega)
    unfold assign
    simp only [hall, Except.map]
    exact ⟨_, rfl⟩
  · obtain ⟨settled, hall, rfl⟩ := assign_eq_ok h
    have hcandidates := settleAll_candidates _ hall
    rw [← hcandidates, List.forall₂_map_left_iff, List.forall₂_map_right_iff,
      List.forall₂_same]
    rintro ⟨candidate, identifier⟩ hm
    refine ⟨rfl, ?_⟩
    by_cases hown : identifier = candidate.name
    · exact .inl hown
    · exact .inr (settleAll_numbers hall _ hm hown).2

/-- Three models, two of which ask for one name, need numbers up to three: the third one has the
name with a two. -/
theorem assign_of_room_kennel : kennelModels.nameable.length = 3 ∧
    (∃ names, kennelModels.assign { maxSuffix := 3 } = .ok names) ∧
    ¬ ∃ names, kennelModels.assign { maxSuffix := 2 } = .ok names := by
  refine ⟨by decide, (assign_of_room _ kennelModels).1 rfl (by decide), ?_⟩
  rintro ⟨names, h⟩
  have hnone : (kennelModels.assign { maxSuffix := 2 }).toOption = none := by decide +kernel
  rw [h] at hnone
  cases hnone

end Models

end ApiAtlas
