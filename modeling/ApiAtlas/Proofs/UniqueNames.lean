import ApiAtlas.Naming.Assignment
import Mathlib.Data.List.Range
import Mathlib.Data.List.Nodup

namespace ApiAtlas

theorem firstFree_not_mem {taken : List String} {base : String} (tries : Nat) :
    ∀ {n : Nat} {identifier : String}, firstFree taken base n tries = some identifier →
      identifier ∉ taken := by
  induction tries with
  | zero =>
    intro n identifier h
    cases h
  | succ tries ih =>
    intro n identifier h
    rw [firstFree] at h
    split at h
    next => exact ih h
    next hn =>
      cases Option.some.inj h
      simpa using hn

namespace Candidate

variable {naming : NamingSettings} {candidates : List Candidate} {candidate : Candidate}
  {taken : List String} {identifier : String}

/-- Two candidates at different places do not both ask alone for one name. -/
theorem isShared_of_sublist {first second : Candidate} {rest : List Candidate}
    (hsub : (first :: rest).Sublist candidates) (hm : second ∈ rest)
    (hname : first.name = second.name) : isShared candidates first.name = true := by
  have hfilter : (askFor (first :: rest) first.name).Sublist (askFor candidates first.name) :=
    hsub.filter _
  have hsecond : second ∈ askFor rest first.name :=
    List.mem_filter.mpr ⟨hm, by simp [hname]⟩
  have hpos : 0 < (askFor rest first.name).length := List.length_pos_of_mem hsecond
  have hcons : askFor (first :: rest) first.name = first :: askFor rest first.name :=
    List.filter_cons_of_pos (by simp)
  have hlength := hfilter.length_le
  rw [hcons, List.length_cons] at hlength
  unfold isShared
  rw [decide_eq_true_iff]
  omega

/-- An identifier is one that was not taken, or a name that only its candidate asks for. -/
theorem settle_fresh (h : settle naming candidates taken candidate = .ok identifier) :
    identifier ∉ taken ∨
      isShared candidates candidate.name = false ∧ identifier = candidate.name := by
  unfold settle at h
  split at h
  next hs =>
    cases h
    exact .inr ⟨by simpa using hs, rfl⟩
  next =>
    split at h
    next => cases h
    next =>
      split at h
      next hn =>
        cases h
        exact .inl (by simpa using hn)
      next =>
        split at h
        next free hf =>
          cases h
          exact .inl (firstFree_not_mem _ hf)
        next => cases h

theorem settleAll_cons {rest : List Candidate} {settled : List (Candidate × String)}
    (h : settleAll naming candidates taken (candidate :: rest) = .ok settled) :
    ∃ identifier others, settle naming candidates taken candidate = .ok identifier ∧
      settleAll naming candidates (identifier :: taken) rest = .ok others ∧
      settled = (candidate, identifier) :: others := by
  rw [settleAll] at h
  cases hs : settle naming candidates taken candidate with
  | error collision =>
    rw [hs] at h
    cases h
  | ok identifier =>
    cases ho : settleAll naming candidates (identifier :: taken) rest with
    | error collision =>
      simp only [hs, ho, bind, Except.bind] at h
      cases h
    | ok others =>
      simp only [hs, ho, bind, Except.bind] at h
      cases h
      exact ⟨identifier, others, rfl, ho, rfl⟩

theorem settleAll_candidates (rest : List Candidate) : ∀ {taken : List String}
    {settled : List (Candidate × String)}, settleAll naming candidates taken rest = .ok settled →
      settled.map Prod.fst = rest := by
  induction rest with
  | nil =>
    intro taken settled h
    cases h
    rfl
  | cons candidate rest ih =>
    intro taken settled h
    obtain ⟨identifier, others, _, ho, rfl⟩ := settleAll_cons h
    rw [List.map_cons, ih ho]

theorem settleAll_fresh (rest : List Candidate) : ∀ {taken : List String}
    {settled : List (Candidate × String)}, settleAll naming candidates taken rest = .ok settled →
      ∀ pair ∈ settled, pair.2 ∉ taken ∨
        isShared candidates pair.1.name = false ∧ pair.2 = pair.1.name := by
  induction rest with
  | nil =>
    intro taken settled h pair hp
    cases h
    simp at hp
  | cons candidate rest ih =>
    intro taken settled h pair hp
    obtain ⟨identifier, others, hs, ho, rfl⟩ := settleAll_cons h
    rcases List.mem_cons.mp hp with rfl | hr
    · exact settle_fresh hs
    · exact (ih ho pair hr).imp_left fun hn ht => hn (List.mem_cons_of_mem _ ht)

/-- Identifiers that are settled one after the other differ, where all names that only one candidate
asks for are taken from the start. -/
theorem settleAll_nodup (rest : List Candidate) : ∀ {taken : List String}
    {settled : List (Candidate × String)}, rest.Sublist candidates →
      (∀ candidate ∈ rest, isShared candidates candidate.name = false → candidate.name ∈ taken) →
      settleAll naming candidates taken rest = .ok settled → (settled.map Prod.snd).Nodup := by
  induction rest with
  | nil =>
    intro taken settled _ _ h
    cases h
    exact List.nodup_nil
  | cons candidate rest ih =>
    intro taken settled hsub hsole h
    obtain ⟨identifier, others, hs, ho, rfl⟩ := settleAll_cons h
    have hrest : (others.map Prod.snd).Nodup := by
      refine ih ((List.sublist_cons_self candidate rest).trans hsub) (fun other hm hn => ?_) ho
      exact List.mem_cons_of_mem _ (hsole other (List.mem_cons_of_mem _ hm) hn)
    rw [List.map_cons, List.nodup_cons]
    refine ⟨fun hm => ?_, hrest⟩
    obtain ⟨⟨other, again⟩, hp, he⟩ := List.mem_map.mp hm
    have hother : other ∈ rest := settleAll_candidates rest ho ▸ List.mem_map_of_mem hp
    have heq : again = identifier := he
    rcases settleAll_fresh rest ho _ hp with hn | ⟨hn, hname⟩
    · exact hn (heq ▸ List.mem_cons_self)
    · -- The later one keeps a name that it alone asks for, and that was taken before.
      have hidentifier : identifier = other.name := heq.symm.trans hname
      have htaken := hsole other (List.mem_cons_of_mem _ hother) hn
      rcases settle_fresh hs with hfirst | ⟨_, hfirst⟩
      · exact hfirst (hidentifier ▸ htaken)
      · have hshared := isShared_of_sublist hsub hother (hfirst.symm.trans hidentifier)
        rw [← hfirst, hidentifier, hn] at hshared
        cases hshared

theorem qualify_id (naming : NamingSettings) (models : Models) (candidates : List Candidate)
    (candidate : Candidate) : (qualify naming models candidates candidate).id = candidate.id := by
  unfold qualify
  split
  next => split <;> rfl
  next => rfl

end Candidate

/-- Objects, unions and enums, which are what has a name. -/
def Model.isNamed : Model → Bool
  | .object _ => true
  | .union _ => true
  | .enum _ => true
  | _ => false

theorem Model.isSome_context? (model : Model) : model.context?.isSome = model.isNamed := by
  cases model <;> rfl

namespace Models

variable {naming : NamingSettings} {models : Models} {names : NameTable}

theorem mem_nameable {id : ModelId} : id ∈ models.nameable.map Prod.fst ↔
    ∃ model, models.get? id = some model ∧ model.isNamed = true := by
  unfold nameable get?
  simp only [List.mem_map, List.mem_filterMap, Option.map_eq_some_iff]
  constructor
  · rintro ⟨_, ⟨⟨model, place⟩, hm, context, hc, rfl⟩, rfl⟩
    refine ⟨model, List.mem_zipIdx_iff_getElem?.mp hm, ?_⟩
    rw [← Model.isSome_context?, hc]
    rfl
  · rintro ⟨model, hm, hnamed⟩
    rw [← Model.isSome_context?] at hnamed
    obtain ⟨context, hc⟩ := Option.isSome_iff_exists.mp hnamed
    exact ⟨(id, context), ⟨(model, id), List.mem_zipIdx_iff_getElem?.mpr hm, context, hc, rfl⟩, rfl⟩

theorem lt_of_mem_nameable {id : Nat} (h : id ∈ models.nameable.map Prod.fst) :
    id < models.nodes.length := by
  obtain ⟨model, hm, _⟩ := mem_nameable.mp h
  exact (List.getElem?_eq_some_iff.mp hm).1

/-- Models that need a name stand in the order of their places. -/
theorem pairwise_nameable (models : Models) :
    (models.nameable.map Prod.fst).Pairwise (· < ·) := by
  have hids : (models.nodes.zipIdx.map Prod.snd).Pairwise (· < ·) := by
    rw [List.zipIdx_map_snd]
    exact List.pairwise_lt_range'
  unfold nameable
  refine List.pairwise_map.mpr ((List.pairwise_map.mp hids).filterMap _ ?_)
  intro first second hlt named hn named' hn'
  obtain ⟨context, _, rfl⟩ := Option.map_eq_some_iff.mp hn
  obtain ⟨context', _, rfl⟩ := Option.map_eq_some_iff.mp hn'
  exact hlt

theorem assign_eq_ok (h : models.assign naming = .ok names) : ∃ settled,
    Candidate.settleAll naming (Candidate.qualified naming models)
      (Candidate.sole (Candidate.qualified naming models))
      (Candidate.qualified naming models) = .ok settled ∧
    names = settled.map fun (candidate, identifier) =>
      (candidate.id, ⟨candidate.context, models.scope candidate.id, identifier⟩) := by
  unfold assign at h
  simp only at h
  cases hs : Candidate.settleAll naming (Candidate.qualified naming models)
      (Candidate.sole (Candidate.qualified naming models))
      (Candidate.qualified naming models) with
  | error collision =>
    rw [hs] at h
    cases h
  | ok settled =>
    rw [hs] at h
    cases h
    exact ⟨settled, rfl, rfl⟩

/-- The models that need a name ask for one, in their order. -/
theorem ids_qualified (naming : NamingSettings) (models : Models) :
    (Candidate.qualified naming models).map Candidate.id = models.nameable.map Prod.fst := by
  simp only [Candidate.qualified, Candidate.ofModels, List.map_map]
  exact List.map_congr_left fun pair _ => Candidate.qualify_id _ _ _ _

/-- Names are given to the models that need one, in their order. -/
theorem keys_assign (h : models.assign naming = .ok names) :
    names.map Prod.fst = models.nameable.map Prod.fst := by
  obtain ⟨settled, hs, rfl⟩ := assign_eq_ok h
  have hids := congrArg (List.map Candidate.id) (Candidate.settleAll_candidates _ hs)
  rw [ids_qualified, List.map_map] at hids
  rw [List.map_map]
  exact hids

theorem nodup_identifiers (h : models.assign naming = .ok names) :
    (names.map fun entry => entry.2.identifier).Nodup := by
  obtain ⟨settled, hs, rfl⟩ := assign_eq_ok h
  have hsole : ∀ candidate ∈ Candidate.qualified naming models,
      Candidate.isShared (Candidate.qualified naming models) candidate.name = false →
        candidate.name ∈ Candidate.sole (Candidate.qualified naming models) := by
    intro candidate hm hn
    exact List.mem_filter.mpr ⟨List.mem_map_of_mem hm, by simp [hn]⟩
  have hnodup := Candidate.settleAll_nodup _ (List.Sublist.refl _) hsole hs
  rw [List.map_map]
  exact hnodup

/-- Names that are given are complete and differ: each object, union and enum has exactly one entry
and no other model has any, entries stand in the order of the models, and no two have one
identifier. -/
theorem assign_complete (h : models.assign naming = .ok names) :
    (∀ id, (names.map Prod.fst).count id =
      if (models.get? id).any Model.isNamed then 1 else 0) ∧
      (names.map Prod.fst).Pairwise (· < ·) ∧
      (names.map fun entry => entry.2.identifier).Nodup := by
  have hkeys := keys_assign h
  have hpairwise := pairwise_nameable models
  refine ⟨fun id => ?_, hkeys ▸ hpairwise, nodup_identifiers h⟩
  have hnodup : (models.nameable.map Prod.fst).Nodup := hpairwise.imp Nat.ne_of_lt
  rw [hkeys, hnodup.count]
  simp only [mem_nameable, Option.any_eq_true]

/-- Three models of which two ask for one name, and the third asks for that name with a number. -/
def kennelModels : Models where
  nodes := [.object ⟨.named "Pet", none, [], false⟩, .binary,
    .union ⟨.nested "pet" (.named ""), none, [], none, none⟩,
    .enum ⟨.extensible, .named "Pet2", ["a"], none, none⟩]
  components := []
  scopes := [[], [], [], []]

theorem assign_complete_kennel :
    ∃ names, kennelModels.assign {} = .ok names ∧
      (names.map fun entry => entry.2.identifier) = ["Pet", "Pet3", "Pet2"] ∧
      (names.map fun entry => entry.2.identifier).Nodup := by
  have hok : (kennelModels.assign {}).toOption.map (fun names =>
      names.map fun entry => entry.2.identifier) = some ["Pet", "Pet3", "Pet2"] := by decide +kernel
  cases h : kennelModels.assign {} with
  | error collision =>
    rw [h] at hok
    cases hok
  | ok names =>
    rw [h] at hok
    exact ⟨names, rfl, Option.some.inj hok, (assign_complete h).2.2⟩

end Models

end ApiAtlas
