import ApiAtlas.Proofs.UniqueNames

namespace ApiAtlas

theorem firstFree_eq_some {taken : List String} {base : String} (tries : Nat) :
    ∀ {n : Nat} {identifier : String}, firstFree taken base n tries = some identifier →
      ∃ number, n ≤ number ∧ number < n + tries ∧ identifier = base ++ toString number := by
  induction tries with
  | zero =>
    intro n identifier h
    cases h
  | succ tries ih =>
    intro n identifier h
    rw [firstFree] at h
    split at h
    next =>
      obtain ⟨number, hle, hlt, he⟩ := ih h
      exact ⟨number, by omega, by omega, he⟩
    next =>
      cases Option.some.inj h
      exact ⟨n, Nat.le_refl n, by omega, rfl⟩

namespace Candidate

variable {naming : NamingSettings} {candidates before after : List Candidate}
  {candidate : Candidate} {taken : List String} {identifier name : String}

/-- The name is that of the candidate with a number that it may be given. -/
def Numbers (naming : NamingSettings) (candidate : Candidate) (name : String) : Prop :=
  ∃ number, 2 ≤ number ∧ number ≤ naming.maxSuffix ∧ name = candidate.name ++ toString number

theorem isShared_of_mem (hc : candidates = before ++ candidate :: after)
    (h : candidate.name ∈ before.map Candidate.name) :
    isShared candidates candidate.name = true := by
  obtain ⟨other, hm, hname⟩ := List.mem_map.mp h
  obtain ⟨left, right, rfl⟩ := List.append_of_mem hm
  have hsub : (other :: (right ++ candidate :: after)).Sublist candidates := by
    rw [hc, List.append_assoc]
    exact List.sublist_append_right left _
  rw [← hname]
  exact isShared_of_sublist hsub (List.mem_append_right _ List.mem_cons_self) hname

theorem not_mem_sole (h : isShared candidates name = true) : name ∉ sole candidates := by
  intro hm
  have halone := (List.mem_filter.mp hm).2
  simp [h] at halone

/-- A candidate is given its name, or its name with a number if the name is shared and taken. -/
theorem settle_cases (h : settle naming candidates taken candidate = .ok identifier) :
    identifier = candidate.name ∧ (isShared candidates candidate.name = true →
        candidate.name ∉ taken) ∨
      isShared candidates candidate.name = true ∧ candidate.name ∈ taken ∧
        candidate.Numbers naming identifier := by
  unfold settle at h
  split at h
  next hs =>
    cases h
    exact .inl ⟨rfl, fun hshared => by simp [hshared] at hs⟩
  next hs =>
    split at h
    next => cases h
    next =>
      split at h
      next ht =>
        cases h
        exact .inl ⟨rfl, fun _ => by simpa using ht⟩
      next ht =>
        split at h
        next free hf =>
          cases h
          obtain ⟨number, hle, hlt, he⟩ := firstFree_eq_some _ hf
          exact .inr ⟨by simpa using hs, by simpa using ht, number, hle, by omega, he⟩
        next => cases h

theorem mem_taken_of_settle (h : settle naming candidates taken candidate = .ok identifier) :
    candidate.name ∈ identifier :: taken := by
  rcases settle_cases h with ⟨rfl, -⟩ | ⟨-, ht, -⟩
  · exact List.mem_cons_self
  · exact List.mem_cons_of_mem _ ht

/-- What is settled of some candidates is what is settled of the first ones, and then of the others
with the identifiers of the first ones taken. -/
theorem settleAll_append (rest : List Candidate) : ∀ {before : List Candidate}
    {taken : List String} {settled : List (Candidate × String)},
      settleAll naming candidates taken (before ++ rest) = .ok settled →
        ∃ first last, settled = first ++ last ∧
          settleAll naming candidates taken before = .ok first ∧
          settleAll naming candidates ((first.map Prod.snd).reverse ++ taken) rest = .ok last := by
  intro before
  induction before with
  | nil => exact fun {taken settled} h => ⟨[], settled, rfl, rfl, h⟩
  | cons candidate before ih =>
    intro taken settled h
    obtain ⟨identifier, others, hs, ho, rfl⟩ := settleAll_cons h
    obtain ⟨first, last, rfl, hfirst, hlast⟩ := ih ho
    refine ⟨(candidate, identifier) :: first, last, rfl, ?_, ?_⟩
    · simp only [settleAll, hs, hfirst, bind, Except.bind]
      rfl
    · simpa using hlast

/-- The names of all candidates that have an identifier are taken. -/
theorem names_taken_of_settleAll : ∀ {before : List Candidate} {taken : List String}
    {settled : List (Candidate × String)}, settleAll naming candidates taken before = .ok settled →
      ∀ name ∈ before.map Candidate.name, name ∈ (settled.map Prod.snd).reverse ++ taken := by
  intro before
  induction before with
  | nil => exact fun _ name hm => by simp at hm
  | cons candidate before ih =>
    intro taken settled h name hm
    obtain ⟨identifier, others, hs, ho, rfl⟩ := settleAll_cons h
    have hall : ((candidate, identifier) :: others).map Prod.snd =
        identifier :: others.map Prod.snd := rfl
    rw [hall, List.reverse_cons, List.append_assoc, List.singleton_append]
    rcases List.mem_cons.mp hm with rfl | hm
    · exact List.mem_append_right _ (mem_taken_of_settle hs)
    · exact ih ho name hm

/-- An identifier that is not its candidate's name is that name with a number, and the name is
shared. -/
theorem settleAll_numbers : ∀ {before : List Candidate} {taken : List String}
    {settled : List (Candidate × String)}, settleAll naming candidates taken before = .ok settled →
      ∀ pair ∈ settled, pair.2 ≠ pair.1.name →
        isShared candidates pair.1.name = true ∧ pair.1.Numbers naming pair.2 := by
  intro before
  induction before with
  | nil =>
    intro taken settled h pair hp
    cases h
    simp at hp
  | cons candidate before ih =>
    intro taken settled h pair hp hne
    obtain ⟨identifier, others, hs, ho, rfl⟩ := settleAll_cons h
    rcases List.mem_cons.mp hp with rfl | hp
    · rcases settle_cases hs with ⟨he, -⟩ | ⟨hshared, -, hnumbers⟩
      · exact absurd he hne
      · exact ⟨hshared, hnumbers⟩
    · exact ih ho pair hp hne

end Candidate

namespace Models

open Candidate

variable {naming : NamingSettings} {models : Models} {names : NameTable}
  {before after : List Candidate} {candidate : Candidate}

/-- The entry of a candidate stands where the candidate does, and was settled when the entries
before it were. -/
theorem assign_split (h : models.assign naming = .ok names)
    (hc : qualified naming models = before ++ candidate :: after) :
    ∃ settled identifier later,
      settleAll naming (qualified naming models) (sole (qualified naming models)) before =
        .ok settled ∧
      settle naming (qualified naming models)
        ((settled.map Prod.snd).reverse ++ sole (qualified naming models)) candidate =
          .ok identifier ∧
      names = settled.map (fun (candidate, identifier) =>
          (candidate.id, ⟨candidate.context, models.scope candidate.id, identifier⟩)) ++
        (candidate.id, ⟨candidate.context, models.scope candidate.id, identifier⟩) :: later := by
  obtain ⟨all, hall, rfl⟩ := assign_eq_ok h
  have hsplit : settleAll naming (qualified naming models) (sole (qualified naming models))
      (before ++ candidate :: after) = .ok all := by rw [← hc]; exact hall
  obtain ⟨settled, rest, rfl, hbefore, hrest⟩ := settleAll_append _ hsplit
  obtain ⟨identifier, others, hs, -, rfl⟩ := settleAll_cons hrest
  exact ⟨settled, identifier, _, hbefore, hs, List.map_append⟩

/-- A model that asks for a name after another one is given the name with a number. The first model
that asks for it keeps it bare, unless a model before it was given it; this one has a shared name
itself, of which the other is that with a number, and the first model gets a number as well. -/
theorem keeps_bare_name (h : models.assign naming = .ok names)
    (hc : qualified naming models = before ++ candidate :: after) :
    ∃ earlier entry later, names = earlier ++ (candidate.id, entry) :: later ∧
      earlier.map Prod.fst = before.map Candidate.id ∧
      (candidate.name ∈ before.map Candidate.name → candidate.Numbers naming entry.identifier) ∧
      (candidate.name ∉ before.map Candidate.name →
        (entry.identifier = candidate.name ↔
          candidate.name ∉ earlier.map fun other => other.2.identifier) ∧
        (entry.identifier ≠ candidate.name → candidate.Numbers naming entry.identifier ∧
          isShared (qualified naming models) candidate.name = true ∧
          ∃ other ∈ before, isShared (qualified naming models) other.name = true ∧
            other.Numbers naming candidate.name)) := by
  obtain ⟨settled, identifier, later, hbefore, hs, hnames⟩ := assign_split h hc
  have hcandidates : settled.map Prod.fst = before := settleAll_candidates _ hbefore
  refine ⟨_, _, later, hnames, ?_, fun hm => ?_, fun hm => ⟨?_, fun hne => ?_⟩⟩
  · rw [← hcandidates, List.map_map, List.map_map]
    rfl
  · -- A name before is taken by now.
    rcases settle_cases hs with ⟨-, hn⟩ | ⟨-, -, hnumbers⟩
    · exact absurd (names_taken_of_settleAll hbefore _ hm) (hn (isShared_of_mem hc hm))
    · exact hnumbers
  · have hidentifiers : settled.map Prod.snd = (settled.map fun (candidate, identifier) =>
        ((candidate.id, ⟨candidate.context, models.scope candidate.id, identifier⟩) :
          ModelId × NameEntry)).map fun other => other.2.identifier := by
      rw [List.map_map]
      rfl
    rw [← hidentifiers]
    constructor
    · intro he hm'
      have hnodup := nodup_identifiers h
      rw [hnames, List.map_append, ← hidentifiers] at hnodup
      exact (List.nodup_append.mp hnodup).2.2 _ hm' _ List.mem_cons_self he.symm
    · intro hn
      rcases settle_cases hs with ⟨he, -⟩ | ⟨hshared, ht, -⟩
      · exact he
      · rcases List.mem_append.mp ht with ht | ht
        · exact absurd (List.mem_reverse.mp ht) hn
        · exact absurd ht (not_mem_sole hshared)
  · rcases settle_cases hs with ⟨he, -⟩ | ⟨hshared, ht, hnumbers⟩
    · exact absurd he hne
    · refine ⟨hnumbers, hshared, ?_⟩
      rcases List.mem_append.mp ht with ht | ht
      · -- It was given to a model before, which asks for another name.
        obtain ⟨pair, hp, he⟩ := List.mem_map.mp (List.mem_reverse.mp ht)
        have hpair : pair.1 ∈ before := hcandidates ▸ List.mem_map_of_mem hp
        have hother : pair.2 ≠ pair.1.name := fun hown =>
          hm (he ▸ hown ▸ List.mem_map_of_mem hpair)
        obtain ⟨hshared', hnumbers'⟩ := settleAll_numbers hbefore pair hp hother
        exact ⟨pair.1, hpair, hshared', he ▸ hnumbers'⟩
      · exact absurd ht (not_mem_sole hshared)

/-- The second one of three models asks for the name of the first. -/
theorem keeps_bare_name_kennel : ∃ names before candidate after,
    kennelModels.assign {} = .ok names ∧
      qualified {} kennelModels = before ++ candidate :: after ∧
      candidate.name ∈ before.map Candidate.name ∧
      ∃ earlier entry later, names = earlier ++ (candidate.id, entry) :: later ∧
        candidate.Numbers {} entry.identifier := by
  have hok : (kennelModels.assign {}).toOption.isSome = true := by decide +kernel
  have hsplit : qualified {} kennelModels = [⟨0, .named "Pet", "Pet"⟩] ++
      ⟨2, .nested "pet" (.named ""), "Pet"⟩ :: [⟨3, .named "Pet2", "Pet2"⟩] := by decide +kernel
  cases h : kennelModels.assign {} with
  | error collision =>
    rw [h] at hok
    cases hok
  | ok names =>
    obtain ⟨earlier, entry, later, hnames, -, hnumbers, -⟩ := keeps_bare_name h hsplit
    exact ⟨names, _, _, _, rfl, hsplit, List.mem_cons_self, earlier, entry, later, hnames,
      hnumbers List.mem_cons_self⟩

/-- Two pairs of models, of which the second pair asks for the name of the first with a number. -/
def litterModels : Models where
  nodes := [.object ⟨.named "Pet", none, [], false⟩, .object ⟨.named "pet", none, [], false⟩,
    .object ⟨.named "Pet2", none, [], false⟩, .object ⟨.named "pet2", none, [], false⟩]
  components := [("Pet", 0), ("pet", 1), ("Pet2", 2), ("pet2", 3)]
  scopes := [[], [], [], []]

/-- The first model that asks for `Pet2` does not get it: the second one of those that ask for `Pet`
does. -/
theorem bare_name_lost :
    (qualified {} litterModels).map Candidate.name = ["Pet", "Pet", "Pet2", "Pet2"] ∧
      (litterModels.assign {}).toOption.map (fun names =>
        names.map fun entry => entry.2.identifier) = some ["Pet", "Pet2", "Pet22", "Pet23"] := by
  constructor
  · decide +kernel
  · decide +kernel

end Models

end ApiAtlas
