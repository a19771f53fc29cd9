import ApiAtlas.Proofs.UniqueNames

namespace ApiAtlas

namespace Candidate

variable {naming : NamingSettings} {candidates : List Candidate} {candidate : Candidate}
  {name : String}

theorem length_askFor (candidates : List Candidate) (name : String) :
    (askFor candidates name).length = (candidates.map Candidate.name).count name := by
  rw [List.count, List.countP_map, List.countP_eq_length_filter]
  rfl

theorem isShared_iff :
    isShared candidates name = true ↔ 1 < (candidates.map Candidate.name).count name := by
  rw [isShared, decide_eq_true_iff, length_askFor]

/-- A candidate is alone with its name if it is not shared. -/
theorem count_of_not_shared (hm : candidate ∈ candidates)
    (h : isShared candidates candidate.name = false) :
    (candidates.map Candidate.name).count candidate.name = 1 := by
  have hpos : 0 < (candidates.map Candidate.name).count candidate.name :=
    List.count_pos_iff.mpr (List.mem_map_of_mem hm)
  have hle : ¬ 1 < (candidates.map Candidate.name).count candidate.name := by
    rw [← isShared_iff, h]
    exact Bool.false_ne_true
  omega

theorem nodup_names_iff : (candidates.map Candidate.name).Nodup ↔
    ∀ candidate ∈ candidates, isShared candidates candidate.name = false := by
  constructor
  · intro h candidate _
    have hle := List.nodup_iff_count_le_one.mp h candidate.name
    rw [Bool.eq_false_iff, Ne, isShared_iff]
    omega
  · intro h
    refine List.nodup_iff_count_le_one.mpr fun name => ?_
    by_cases hm : name ∈ candidates.map Candidate.name
    · obtain ⟨candidate, hc, rfl⟩ := List.mem_map.mp hm
      exact (count_of_not_shared hc (h candidate hc)).le
    · rw [List.count_eq_zero.mpr hm]
      exact Nat.zero_le 1

theorem settle_of_not_shared (h : isShared candidates candidate.name = false)
    (taken : List String) : settle naming candidates taken candidate = .ok candidate.name := by
  simp [settle, h]

theorem settle_of_strict (hs : naming.strict = true)
    (h : isShared candidates candidate.name = true) (taken : List String) :
    settle naming candidates taken candidate = .error (collision candidates candidate.name) := by
  simp [settle, h, hs]

/-- Candidates that are alone with their names get them, whatever is taken before. -/
theorem settleAll_of_not_shared (rest : List Candidate) : ∀ taken : List String,
    (∀ candidate ∈ rest, isShared candidates candidate.name = false) →
      settleAll naming candidates taken rest =
        .ok (rest.map fun candidate => (candidate, candidate.name)) := by
  induction rest with
  | nil => exact fun _ _ => rfl
  | cons candidate rest ih =>
    intro taken h
    obtain ⟨hfirst, hrest⟩ := List.forall_mem_cons.mp h
    rw [settleAll, settle_of_not_shared hfirst, List.map_cons]
    simp only [bind, Except.bind, ih _ hrest]
    rfl

/-- Under strict settings the first candidate of a shared name is refused. -/
theorem settleAll_of_strict (hs : naming.strict = true)
    (hshared : isShared candidates candidate.name = true) (after before : List Candidate) :
    ∀ taken : List String,
      (∀ candidate ∈ before, isShared candidates candidate.name = false) →
        settleAll naming candidates taken (before ++ candidate :: after) =
          .error (collision candidates candidate.name) := by
  induction before with
  | nil =>
    intro taken _
    rw [List.nil_append, settleAll, settle_of_strict hs hshared]
    rfl
  | cons first before ih =>
    intro taken h
    obtain ⟨hfirst, hrest⟩ := List.forall_mem_cons.mp h
    rw [List.cons_append, settleAll, settle_of_not_shared hfirst]
    simp only [bind, Except.bind, ih _ hrest]

/-- Either no name is shared, or some candidate is the first one of a shared name. -/
theorem none_or_first_shared (candidates rest : List Candidate) :
    (∀ candidate ∈ rest, isShared candidates candidate.name = false) ∨
      ∃ before candidate after, rest = before ++ candidate :: after ∧
        (∀ other ∈ before, isShared candidates other.name = false) ∧
        isShared candidates candidate.name = true := by
  induction rest with
  | nil => exact .inl nofun
  | cons first rest ih =>
    by_cases hfirst : isShared candidates first.name = true
    · exact .inr ⟨[], first, rest, rfl, nofun, hfirst⟩
    · rw [Bool.not_eq_true] at hfirst
      rcases ih with hrest | ⟨before, candidate, after, rfl, hbefore, hshared⟩
      · exact .inl (List.forall_mem_cons.mpr ⟨hfirst, hrest⟩)
      · exact .inr ⟨first :: before, candidate, after, rfl,
          List.forall_mem_cons.mpr ⟨hfirst, hbefore⟩, hshared⟩

end Candidate

namespace Models

open Candidate

/-- The name that a model asks for in the end: the identifier of its context, or, where several
models have that one, the identifier with the last segment of its scope in front of its context. -/
def askedName (naming : NamingSettings) (models : Models) (model : ModelId × Context) : String :=
  let own := model.2.render naming
  if 1 < (models.nameable.map fun other => other.2.render naming).count own then
    match (models.scope model.1).getLast? with
    | some segment => renderSegments naming (segment :: model.2.segments)
    | none => own
  else own

/-- The names that models ask for, as a table. -/
def askedNames (naming : NamingSettings) (models : Models) : NameTable :=
  models.nameable.map fun model =>
    (model.1, ⟨model.2, models.scope model.1, models.askedName naming model⟩)

theorem qualify_ofModels (naming : NamingSettings) (models : Models) (model : ModelId × Context) :
    qualify naming models (ofModels naming models) ⟨model.1, model.2, model.2.render naming⟩ =
      ⟨model.1, model.2, models.askedName naming model⟩ := by
  have hshared : isShared (ofModels naming models) (model.2.render naming) = true ↔
      1 < (models.nameable.map fun other => other.2.render naming).count
        (model.2.render naming) := by
    rw [isShared_iff, ofModels, List.map_map]
    rfl
  simp only [qualify, hshared, askedName]
  split
  next => cases (models.scope model.1).getLast? <;> rfl
  next => rfl

theorem qualified_eq (naming : NamingSettings) (models : Models) :
    qualified naming models =
      models.nameable.map fun model => ⟨model.1, model.2, models.askedName naming model⟩ := by
  have hmodels : qualified naming models = models.nameable.map fun model =>
      qualify naming models (ofModels naming models) ⟨model.1, model.2, model.2.render naming⟩ :=
    List.map_map
  rw [hmodels]
  exact List.map_congr_left fun model _ => qualify_ofModels naming models model

theorem names_qualified (naming : NamingSettings) (models : Models) :
    (qualified naming models).map Candidate.name =
      models.nameable.map (models.askedName naming) := by
  rw [qualified_eq, List.map_map]
  rfl

theorem assign_of_nodup (naming : NamingSettings) (models : Models)
    (h : (models.nameable.map (models.askedName naming)).Nodup) :
    models.assign naming = .ok (models.askedNames naming) := by
  rw [← names_qualified] at h
  unfold assign
  simp only [settleAll_of_not_shared _ _ (nodup_names_iff.mp h), Except.map, List.map_map]
  rw [qualified_eq, List.map_map]
  rfl

theorem assign_of_shared {naming : NamingSettings} {models : Models}
    {before after : List Candidate} {candidate : Candidate} (hs : naming.strict = true)
    (hc : qualified naming models = before ++ candidate :: after)
    (hbefore : ∀ other ∈ before, isShared (qualified naming models) other.name = false)
    (hshared : isShared (qualified naming models) candidate.name = true) :
    models.assign naming = .error (collision (qualified naming models) candidate.name) := by
  have herror := settleAll_of_strict hs hshared after before (sole (qualified naming models)) hbefore
  rw [← hc] at herror
  unfold assign
  simp only [herror, Except.map]

/-- The collision over a name lists the models that ask for it. -/
theorem contexts_collision (naming : NamingSettings) (models : Models) (name : String) :
    (collision (qualified naming models) name).contexts =
      (models.nameable.filter fun model => models.askedName naming model = name).map
        fun model => model.2.text := by
  rw [collision, askFor, qualified_eq, List.filter_map, List.map_map]
  rfl

/-- Where names are shared, some model is the first one that does not ask for its name alone. -/
theorem exists_first_shared (naming : NamingSettings) (models : Models)
    (hs : naming.strict = true) (hshared : ¬ (models.nameable.map (models.askedName naming)).Nodup) :
    ∃ before first after, models.nameable = before ++ first :: after ∧
      (∀ other ∈ before,
        (models.nameable.map (models.askedName naming)).count (models.askedName naming other) = 1) ∧
      1 < (models.nameable.map (models.askedName naming)).count (models.askedName naming first) ∧
      models.assign naming =
        .error (collision (qualified naming models) (models.askedName naming first)) := by
  rcases none_or_first_shared (qualified naming models) (qualified naming models) with
    hnone | ⟨before, candidate, after, hsplit, hbefore, hfirst⟩
  · rw [← names_qualified] at hshared
    exact absurd (nodup_names_iff.mpr hnone) hshared
  · have hassign := assign_of_shared hs hsplit hbefore hfirst
    obtain ⟨earlier, later, hmodels, rfl, hlater⟩ :=
      List.map_eq_append_iff.mp ((qualified_eq naming models).symm.trans hsplit)
    obtain ⟨first, rest, rfl, rfl, rfl⟩ := List.map_eq_cons_iff.mp hlater
    refine ⟨earlier, first, rest, hmodels, fun other ho => ?_, ?_, hassign⟩
    · have hother := List.mem_map_of_mem
        (f := fun model => (⟨model.1, model.2, models.askedName naming model⟩ : Candidate)) ho
      rw [← names_qualified]
      exact count_of_not_shared (hsplit ▸ List.mem_append_left _ hother) (hbefore _ hother)
    · rw [← names_qualified]
      exact isShared_iff.mp hfirst

/-- Strict settings accept exactly models that ask for different names. Then every model has the
name it asks for, and the names are the same as without strict settings. Otherwise the collision is
over the name of the first model that does not ask for its name alone, and lists all that ask for
it, in their order. -/
theorem assign_strict (naming : NamingSettings) (models : Models) :
    let asked := models.nameable.map (models.askedName naming)
    ((∃ names, models.assign { naming with strict := true } = .ok names) ↔ asked.Nodup) ∧
    (∀ names, models.assign { naming with strict := true } = .ok names →
      models.assign { naming with strict := false } = .ok names ∧
        names = models.askedNames naming) ∧
    ∀ refused, models.assign { naming with strict := true } = .error refused →
      ∃ before first after, models.nameable = before ++ first :: after ∧
        (∀ other ∈ before, asked.count (models.askedName naming other) = 1) ∧
        1 < asked.count (models.askedName naming first) ∧
        refused.identifier = models.askedName naming first ∧
        refused.contexts = (models.nameable.filter fun model =>
          models.askedName naming model = models.askedName naming first).map
            fun model => model.2.text := by
  intro asked
  -- Whether settings are strict has no part in the names that models ask for.
  have hlax (strict : Bool) (h : asked.Nodup) :
      models.assign { naming with strict } = .ok (models.askedNames naming) :=
    assign_of_nodup { naming with strict } models h
  by_cases hnodup : asked.Nodup
  · have hstrict := hlax true hnodup
    refine ⟨⟨fun _ => hnodup, fun _ => ⟨_, hstrict⟩⟩, fun names h => ?_, fun refused h => ?_⟩
    · rw [hstrict] at h
      cases h
      exact ⟨hlax false hnodup, rfl⟩
    · rw [hstrict] at h
      cases h
  · obtain ⟨before, first, after, hmodels, hbefore, hfirst, hstrict⟩ :=
      exists_first_shared { naming with strict := true } models rfl hnodup
    refine ⟨⟨fun ⟨names, h⟩ => ?_, fun h => absurd h hnodup⟩, fun names h => ?_,
      fun refused h => ?_⟩
    · rw [hstrict] at h
      cases h
    · rw [hstrict] at h
      cases h
    · rw [hstrict] at h
      cases h
      exact ⟨before, first, after, hmodels, hbefore, hfirst, rfl, contexts_collision _ models _⟩

/-- Models of three operations. Two of them share the name `ListResponse`, which the last segments
of their scopes part; the last one, if it is there, is a component of one of the parted names. -/
def listedModels (components : List Model) : Models where
  nodes := [.object ⟨.nested "response" (.named "list"), none, [], false⟩,
    .object ⟨.nested "response" (.named "list"), none, [], false⟩, .binary] ++ components
  components := []
  scopes := [["shop", "pets"], ["shop", "owners"], ["shop"]] ++ components.map fun _ => []

theorem assign_strict_listed :
    let strict : NamingSettings := { strict := true }
    (∃ names, (listedModels []).assign strict = .ok names ∧
      names.map (fun entry => (entry.1, entry.2.identifier)) =
        [(0, "PetsListResponse"), (1, "OwnersListResponse")]) ∧
    ∀ names, (listedModels [.object ⟨.named "PetsListResponse", none, [], false⟩]).assign strict ≠
      .ok names := by
  intro strict
  obtain ⟨haccepts, hnames, -⟩ := assign_strict {} (listedModels [])
  have hparted : ((listedModels []).nameable.map ((listedModels []).askedName {})) =
      ["PetsListResponse", "OwnersListResponse"] := by decide +kernel
  refine ⟨?_, fun names h => ?_⟩
  · obtain ⟨names, hn⟩ := haccepts.mpr (by rw [hparted]; decide)
    refine ⟨names, hn, ?_⟩
    rw [(hnames names hn).2]
    decide +kernel
  · have hnodup := (assign_strict {} _).1.mp ⟨names, h⟩
    revert hnodup
    decide +kernel

end Models

end ApiAtlas
