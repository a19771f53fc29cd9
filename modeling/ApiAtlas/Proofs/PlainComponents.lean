import ApiAtlas.Proofs.GoodComponents
import ApiAtlas.Proofs.ResolutionDepth

namespace ApiAtlas

namespace Lookup

variable {lookup : Lookup} {name target owner path : String} {schema : Schema} {demand : Demand}
  {fact : Fact}

theorem WrittenAs.found (h : lookup.WrittenAs name owner schema) :
    lookup.find owner = some (.inline schema) := by
  induction h with
  | here found => exact found
  | next _ _ _ ih => exact ih

theorem WrittenAs.stands (h : lookup.WrittenAs name owner schema) (hp : schema.peel? = none) :
    lookup.Stands name owner schema := by
  induction h with
  | here found => exact .own ⟨_, found, SchemaNode.bare_inline hp⟩
  | next found named _ ih => exact .link ⟨_, _, found, SchemaNode.bare_ref _, named⟩ (ih hp)

theorem branches_of_form (h : lookup.form schema = .object) : schema.allOf = [] := by
  unfold form Registry.form at h
  split at h
  next => cases h
  next he => simpa using he

theorem declaresObject_of_form (h : lookup.form schema = .object) :
    Registry.declaresObject schema = true := by
  unfold form Registry.form at h
  split at h
  next => cases h
  next =>
    split at h
    next hs =>
      unfold Registry.declaresObject
      rcases Bool.or_eq_true_iff.mp hs with hp | ha
      · simp [hp]
      · simp [ha]
    next =>
      split at h
      next => cases h
      next =>
        split at h
        · cases h
        · cases h
        · split_ifs at h

/-- A schema of another form than an object has neither branches nor properties. -/
theorem bare_of_form (hm : lookup.form schema ≠ .merged) (ho : lookup.form schema ≠ .object) :
    schema.allOf = [] ∧ schema.properties = [] := by
  unfold form Registry.form at hm ho
  split at hm
  next => exact absurd rfl hm
  next hall =>
    rw [if_neg hall] at ho
    split at ho
    next => exact absurd rfl ho
    next hproperties =>
      have hparts : schema.properties.isEmpty = true := by
        simp only [Bool.or_eq_true, not_or] at hproperties
        simpa using hproperties.1
      exact ⟨by simpa using hall, List.isEmpty_iff.mp hparts⟩

/-- What can be part of an object is an object or has nothing below it. -/
theorem form_of_compatible (lookup : Lookup) (hc : schema.isObjectCompatible = true) :
    lookup.form schema = .merged ∨ lookup.form schema = .object ∨ lookup.form schema = .plain := by
  unfold SchemaOf.isObjectCompatible at hc
  simp only [Bool.and_eq_true, Bool.or_eq_true, beq_iff_eq, List.isEmpty_iff,
    Option.isNone_iff_eq_none] at hc
  obtain ⟨⟨⟨⟨⟨htypes, hcomposition⟩, _⟩, _⟩, hitems⟩, hadditional⟩ := hc
  have hany : schema.anyOf = [] := by
    unfold SchemaOf.composition at hcomposition
    split at hcomposition
    next => exact hcomposition
    next hne => simp [hcomposition] at hne
  have hopen : schema.openStrings? = none := by
    unfold SchemaOf.openStrings?
    simp [hany]
  unfold form Registry.form
  split
  next => exact .inl rfl
  next =>
    split
    next => exact .inr (.inl rfl)
    next =>
      rcases htypes with ht | ht <;>
        simp [ht, hitems, hadditional, hopen, hcomposition]

/-- The text of an object asks for what its model asks for. -/
theorem needs_merge_iff (hc : schema.isObjectCompatible = true) (hf : lookup.form schema ≠ .plain) :
    lookup.Needs (.merge schema) demand ↔ lookup.Needs (.build schema) demand := by
  rcases lookup.form_of_compatible hc with hm | ho | hp
  · rw [needs_build, hm]
    simp [FormNeeds, hc]
  · rw [needs_build, ho]
    rw [needs_merge, branches_of_form ho]
    simp [FormNeeds]
  · exact absurd hp hf

/-- The text of an object gives what its model gives, where all that it requires is there. -/
theorem gives_merge_iff (hc : schema.isObjectCompatible = true) (hf : lookup.form schema ≠ .plain)
    (hr : ∀ property, lookup.Gives (.merge schema) (.asks property) →
      lookup.Gives (.merge schema) (.declares property)) :
    lookup.Gives (.merge schema) fact ↔ lookup.Gives (.build schema) fact := by
  rcases lookup.form_of_compatible hc with hm | ho | hp
  · rw [gives_build, hm]
    refine ⟨fun h => ⟨h, ?_⟩, And.left⟩
    rintro property rfl
    exact hr property h
  · have hwritten : ∀ {fact}, lookup.Gives (.merge schema) fact ↔ schema.Writes fact := by
      intro fact
      rw [gives_merge, branches_of_form ho]
      simp
    rw [gives_build, ho]
    refine ⟨fun h => ?_, fun h => hwritten.mpr ?_⟩
    · cases fact with
      | declares property => exact hwritten.mp h
      | asks property => exact ⟨hwritten.mp (hr property h), hwritten.mp h⟩
      | shaped => trivial
    · cases fact with
      | declares property => exact h
      | asks property => exact h.2
      | shaped => exact declaresObject_of_form ho
  · exact absurd hp hf

theorem extensible_of_compatible (hc : schema.isObjectCompatible = true)
    (hf : lookup.form schema ≠ .plain) (h : lookup.Stands name owner schema) :
    lookup.Extensible name := by
  unfold Extensible
  rw [h.gives_iff, h.free_iff]
  rcases lookup.form_of_compatible hc with hm | ho | hp
  · by_cases hs : lookup.Gives (.merge schema) .shaped
    · exact .inl (.merged hm hs nofun)
    · exact .inr (.merged hm hs)
  · exact .inl (.own ho trivial)
  · exact absurd hp hf

/-- A component with nothing below it leads to none, so that none that it leads to extends it. -/
theorem form_ne_plain {top : String} (h : lookup.Stands name owner schema)
    (he : Extends (lookup.Needs (.component top)) name)
    (ht : Relation.ReflTransGen lookup.Leads owner top) : lookup.form schema ≠ .plain := by
  intro hf
  have hnever : ∀ demand, lookup.Needs (.component owner) demand → demand = .never := by
    intro demand hd
    rw [h.owns.needs_iff, needs_build, hf] at hd
    exact hd.1
  have hnames : ∀ other, ¬ Names (lookup.Needs (.component owner)) other := by
    rintro other ⟨text, hr | hx, _⟩
    · cases hnever _ hr
    · cases hnever _ hx
  rcases ht.cases_head with rfl | ⟨other, hleads, _⟩
  · exact hnames name (.of_extends he)
  · exact hnames other hleads

/-- What is read behind a name is the text that is found there. -/
theorem writtenAs_of_ok {registry : Registry} (fuel : Nat) :
    ∀ {seen : List String} {path location : String},
      registry.writtenComponent fuel seen path location = .ok (owner, schema) →
        ∃ name, Section.schemas.named? path = some name ∧
          registry.lookup.WrittenAs name owner schema := by
  induction fuel with
  | zero =>
    intro seen path location h
    cases h
  | succ fuel ih =>
    intro seen path location h
    rw [Registry.writtenComponent, Section.parseName_eq] at h
    cases hn : Section.schemas.named? path with
    | none =>
      rw [hn] at h
      cases h
    | some name =>
      refine ⟨name, rfl, ?_⟩
      simp only [hn, bind, Except.bind] at h
      split at h
      next => cases h
      next =>
        cases hb : Entries.get? registry.schemas name with
        | none =>
          simp only [hb] at h
          cases h
        | some node =>
          simp only [hb] at h
          cases node with
          | ref text =>
            obtain ⟨target, named, rest⟩ := ih h
            exact .next hb named rest
          | inline body =>
            cases h
            exact .here hb

/-- The text that is found behind a name is found in as many steps as there are components. -/
theorem WrittenAs.writtenComponent {registry : Registry}
    (h : registry.lookup.WrittenAs name owner schema) (hp : schema.peel? = none) :
    ∀ fuel seen path location, Section.schemas.named? path = some name →
      roomFor (Entries.keys registry.schemas) seen < fuel →
      (∀ other ∈ seen, Relation.TransGen registry.lookup.Alias other name) →
      registry.writtenComponent fuel seen path location = .ok (owner, schema) := by
  induction h with
  | @here name schema found =>
    intro fuel seen path location hn hroom hseen
    have hnot : name ∉ seen := fun hm =>
      (WrittenAs.stands (.here found) hp).not_alias_self (hseen _ hm)
    cases fuel with
    | zero => omega
    | succ fuel =>
      change Entries.get? registry.schemas name = _ at found
      rw [Registry.writtenComponent, Section.parseName_eq, hn]
      simp only [bind, Except.bind, List.contains_iff_mem, hnot, if_false, found]
      rfl
  | @next name text target owner schema found named rest ih =>
    intro fuel seen path location hn hroom hseen
    have hnot : name ∉ seen := fun hm =>
      (WrittenAs.stands (.next found named rest) hp).not_alias_self (hseen _ hm)
    have hstep : registry.lookup.Alias name target :=
      ⟨_, text, found, SchemaNode.bare_ref text, named⟩
    cases fuel with
    | zero => omega
    | succ fuel =>
      change Entries.get? registry.schemas name = _ at found
      have hless := roomFor_append_lt (Registry.mem_keys_of_get? found) hnot
      rw [Registry.writtenComponent, Section.parseName_eq, hn]
      simp only [bind, Except.bind, List.contains_iff_mem, hnot, if_false, found]
      refine ih hp fuel (seen ++ [name]) text _ named (by omega) fun other ho => ?_
      rcases List.mem_append.mp ho with hs | hl
      · exact (hseen other hs).tail hstep
      · exact List.mem_singleton.mp hl ▸ .single hstep

theorem WrittenAs.writtenComponent_eq {registry : Registry} {path : String}
    (h : registry.lookup.WrittenAs name owner schema) (hp : schema.peel? = none)
    (hn : Section.schemas.named? path = some name) (location : String) :
    registry.writtenComponent (registry.schemas.length + 1) [] path location =
      .ok (owner, schema) := by
  refine h.writtenComponent hp _ _ _ _ hn ?_ fun other hm => by simp at hm
  have hle := roomFor_le (Entries.keys registry.schemas) []
  have hlength : (Entries.keys registry.schemas).length = registry.schemas.length :=
    List.length_map _
  omega

end Lookup

end ApiAtlas
