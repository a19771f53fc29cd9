import ApiAtlas.Proofs.SchemaForm
import Mathlib.Data.String.Basic

namespace ApiAtlas

theorem afterLead?_eq_some_iff {lead text rest : List Char} :
    afterLead? lead text = some rest ↔ text = lead ++ rest := by
  induction lead generalizing text with
  | nil => simp [afterLead?]
  | cons l lead ih =>
    cases text with
    | nil => simp [afterLead?]
    | cons c text =>
      rw [afterLead?, Option.ite_none_right_eq_some, ih, List.cons_append, List.cons.injEq]
      exact and_congr_left fun _ => eq_comm

theorem cutAt?_eq_some_iff {mark : Char} {text before after : List Char} :
    cutAt? mark text = some (before, after) ↔ text = before ++ mark :: after ∧ mark ∉ before := by
  induction text generalizing before with
  | nil => simp [cutAt?]
  | cons c text ih =>
    rw [cutAt?]
    split
    next hc =>
      subst hc
      cases before with
      | nil => simp
      | cons b before => simp +contextual
    next hc =>
      cases before with
      | nil => simp [hc]
      | cons b before =>
        simp only [Option.map_eq_some_iff, Prod.exists, Prod.mk.injEq, List.cons.injEq,
          List.cons_append, List.mem_cons, not_or]
        constructor
        · rintro ⟨_, _, hcut, ⟨rfl, rfl⟩, rfl⟩
          obtain ⟨rfl, hm⟩ := ih.mp hcut
          exact ⟨⟨rfl, rfl⟩, Ne.symm hc, hm⟩
        · rintro ⟨⟨rfl, rfl⟩, -, hm⟩
          exact ⟨before, after, ih.mpr ⟨rfl, hm⟩, ⟨rfl, rfl⟩, rfl⟩

namespace Section

variable {kind foreign : Section} {path name other : String}

/-- The text refers to the component of this name in the section. -/
structure Refers (kind : Section) (path name : String) : Prop where
  pointer : path = kind.pointer name
  nonempty : name ≠ ""
  noSlash : '/' ∉ name.toList

theorem slash_not_mem_name (kind : Section) : '/' ∉ kind.name.toList := by
  cases kind <;> decide

theorem toList_pointer (kind : Section) (name : String) :
    (kind.pointer name).toList = componentsLead ++ (kind.name.toList ++ '/' :: name.toList) := by
  have hslash : "/".toList = ['/'] := rfl
  unfold pointer componentsLead
  rw [String.toList_append, String.toList_append, String.toList_append, hslash,
    List.append_assoc, List.append_assoc, List.singleton_append]

theorem name_inj : kind.name = foreign.name ↔ kind = foreign := by
  cases kind <;> cases foreign <;> simp [Section.name]

/-- A pointer tells the section, which ends at the first `/`, and the name, whatever it is. -/
theorem pointer_inj :
    kind.pointer name = foreign.pointer other ↔ kind = foreign ∧ name = other := by
  constructor
  · intro h
    have htail := congrArg String.toList h
    rw [toList_pointer, toList_pointer, List.append_cancel_left_eq] at htail
    have hcut : cutAt? '/' (kind.name.toList ++ '/' :: name.toList) =
        some (kind.name.toList, name.toList) :=
      cutAt?_eq_some_iff.mpr ⟨rfl, kind.slash_not_mem_name⟩
    have hother : cutAt? '/' (kind.name.toList ++ '/' :: name.toList) =
        some (foreign.name.toList, other.toList) :=
      cutAt?_eq_some_iff.mpr ⟨htail, foreign.slash_not_mem_name⟩
    obtain ⟨hkind, hname⟩ := Prod.mk.inj (Option.some.inj (hcut.symm.trans hother))
    exact ⟨name_inj.mp (String.toList_inj.mp hkind), String.toList_inj.mp hname⟩
  · rintro ⟨rfl, rfl⟩
    rfl

theorem referenceName?_eq_some_iff {reference component : List Char} :
    referenceName? kind reference = some component ↔
      reference = componentsLead ++ (kind.name.toList ++ '/' :: component) ∧
        component ≠ [] ∧ '/' ∉ component := by
  simp only [referenceName?, Option.bind_eq_bind, Option.bind_eq_some_iff, Prod.exists,
    Option.ite_none_right_eq_some, Option.some.injEq]
  constructor
  · rintro ⟨path, hlead, part, name, hcut, ⟨hpart, hne, hslash⟩, rfl⟩
    rw [afterLead?_eq_some_iff.mp hlead, (cutAt?_eq_some_iff.mp hcut).1, hpart]
    exact ⟨rfl, hne, hslash⟩
  · rintro ⟨hreference, hne, hslash⟩
    have hcut : cutAt? '/' (kind.name.toList ++ '/' :: component) =
        some (kind.name.toList, component) :=
      cutAt?_eq_some_iff.mpr ⟨rfl, kind.slash_not_mem_name⟩
    exact ⟨_, afterLead?_eq_some_iff.mpr hreference, _, _, hcut, ⟨rfl, hne, hslash⟩, rfl⟩

theorem named?_eq_some_iff : kind.named? path = some name ↔ kind.Refers path name := by
  have htext (component : List Char) :
      String.ofList component = name ↔ component = name.toList := by
    constructor
    · rintro rfl
      exact String.toList_ofList.symm
    · rintro rfl
      exact String.ofList_toList
  simp only [named?, Option.map_eq_some_iff, referenceName?_eq_some_iff, htext]
  constructor
  · rintro ⟨_, ⟨hpath, hne, hslash⟩, rfl⟩
    refine ⟨?_, fun he => hne (he ▸ rfl), hslash⟩
    rw [← String.toList_inj, hpath, toList_pointer]
  · rintro ⟨rfl, hne, hslash⟩
    exact ⟨_, ⟨toList_pointer kind name, fun he => hne (String.toList_inj.mp he), hslash⟩, rfl⟩

theorem named?_eq_none_iff : kind.named? path = none ↔ ∀ name, ¬ kind.Refers path name := by
  simp [Option.eq_none_iff_forall_ne_some, named?_eq_some_iff]

theorem Refers.unique (h : kind.Refers path name) (h' : kind.Refers path other) : name = other :=
  (pointer_inj.mp (h.pointer.symm.trans h'.pointer)).2

theorem Refers.not_foreign (h : kind.Refers path name) (hk : foreign ≠ kind) :
    ¬ foreign.Refers path other :=
  fun h' => hk (pointer_inj.mp (h'.pointer.symm.trans h.pointer)).1

theorem parseName_eq_ok_iff_refers {location : String} :
    kind.parseName path location = .ok name ↔ kind.Refers path name :=
  parseName_eq_ok_iff.trans named?_eq_some_iff

theorem parseName_eq_error_iff {location : String} {error : ResolveError} :
    kind.parseName path location = .error error ↔
      (∀ name, ¬ kind.Refers path name) ∧ error = .invalidRefFormat path location := by
  rw [parseName_eq, ← named?_eq_none_iff]
  cases kind.named? path <;> simp [eq_comm]

/-- Reading a reference undoes writing a pointer: a name is read just from the pointer to it, if it
is not empty and has no `/`, and any other text is handed back as no reference, with the place where
it was found. So a text that one section accepts is refused by the others, and two texts that one
section accepts name one component just if they are the same. -/
theorem parseName_inverse (kind : Section) (path location : String) :
    (∀ name, kind.parseName path location = .ok name ↔
        path = kind.pointer name ∧ name ≠ "" ∧ '/' ∉ name.toList) ∧
      (∀ error, kind.parseName path location = .error error ↔
        (¬ ∃ name, path = kind.pointer name ∧ name ≠ "" ∧ '/' ∉ name.toList) ∧
          error = .invalidRefFormat path location) ∧
      ∀ name, kind.parseName path location = .ok name →
        (∀ foreign ≠ kind, ∀ place,
          foreign.parseName path place = .error (.invalidRefFormat path place)) ∧
        ∀ second place other, kind.parseName second place = .ok other →
          (other = name ↔ second = path) := by
  have hrefers (name : String) :
      kind.Refers path name ↔ path = kind.pointer name ∧ name ≠ "" ∧ '/' ∉ name.toList :=
    ⟨fun h => ⟨h.pointer, h.nonempty, h.noSlash⟩, fun ⟨hp, hne, hs⟩ => ⟨hp, hne, hs⟩⟩
  refine ⟨fun name => ?_, fun error => ?_, fun name hname => ⟨fun foreign hk place => ?_, ?_⟩⟩
  · rw [parseName_eq_ok_iff_refers, hrefers]
  · simp only [parseName_eq_error_iff, hrefers, not_exists]
  · have h := parseName_eq_ok_iff_refers.mp hname
    exact parseName_eq_error_iff.mpr ⟨fun _ => h.not_foreign hk, rfl⟩
  · intro second place other hother
    have h := parseName_eq_ok_iff_refers.mp hname
    have h' := parseName_eq_ok_iff_refers.mp hother
    constructor
    · rintro rfl
      exact h'.pointer.trans h.pointer.symm
    · rintro rfl
      exact h'.unique h

theorem parseName_inverse_pet :
    schemas.parseName "#/components/schemas/Pet" "#/x" = .ok "Pet" ∧
      parameters.parseName "#/components/schemas/Pet" "#/x" =
        .error (.invalidRefFormat "#/components/schemas/Pet" "#/x") ∧
      schemas.parseName "#/components/schemas/Pen" "#/y" = .ok "Pen" ∧
      ("Pen" = "Pet" ↔ "#/components/schemas/Pen" = "#/components/schemas/Pet") := by
  have hpet : schemas.parseName "#/components/schemas/Pet" "#/x" = .ok "Pet" := by decide +kernel
  have hpen : schemas.parseName "#/components/schemas/Pen" "#/y" = .ok "Pen" := by decide +kernel
  obtain ⟨hforeign, hsame⟩ := (parseName_inverse schemas _ _).2.2 "Pet" hpet
  exact ⟨hpet, hforeign parameters (by decide) "#/x", hpen, hsame _ _ _ hpen⟩

end Section

end ApiAtlas
