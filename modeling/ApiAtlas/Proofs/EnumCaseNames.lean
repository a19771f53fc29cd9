import ApiAtlas.Naming.EnumCases
import ApiAtlas.Proofs.NumberRoom

namespace ApiAtlas

/-- The search for a number, without a bound: `n` is tried, and then those after it, until the text
with the number is free. -/
inductive Seeks (taken : List String) (base : String) : Nat → String → Prop
  | free {n : Nat} (h : base ++ toString n ∉ taken) : Seeks taken base n (base ++ toString n)
  | next {n : Nat} {identifier : String} (h : base ++ toString n ∈ taken)
      (rest : Seeks taken base (n + 1) identifier) : Seeks taken base n identifier

/-- What is given for `base` where some identifiers are taken. Numbers start at two. -/
inductive Given (taken : List String) (base : String) : String → Prop
  | bare (h : base ∉ taken) : Given taken base base
  | numbered {identifier : String} (h : base ∈ taken) (found : Seeks taken base 2 identifier) :
      Given taken base identifier

section
variable {taken : List String} {base identifier other : String} {n : Nat}

theorem Seeks.not_mem (h : Seeks taken base n identifier) : identifier ∉ taken := by
  induction h with
  | free h => exact h
  | next _ _ ih => exact ih

/-- The search comes to one identifier only. -/
theorem Seeks.unique (h : Seeks taken base n identifier) (h' : Seeks taken base n other) :
    identifier = other := by
  induction h with
  | free hn =>
    cases h' with
    | free _ => rfl
    | next hm _ => exact absurd hm hn
  | next hm _ ih =>
    cases h' with
    | free hn => exact absurd hm hn
    | next _ rest => exact ih rest

theorem Given.not_mem (h : Given taken base identifier) : identifier ∉ taken := by
  cases h with
  | bare h => exact h
  | numbered _ found => exact found.not_mem

theorem Given.unique (h : Given taken base identifier) (h' : Given taken base other) :
    identifier = other := by
  cases h with
  | bare hn =>
    cases h' with
    | bare _ => rfl
    | numbered hm _ => exact absurd hm hn
  | numbered hm found =>
    cases h' with
    | bare hn => exact absurd hm hn
    | numbered _ found' => exact found.unique found'

theorem seeks_of_firstFree (tries : Nat) :
    ∀ {n : Nat}, firstFree taken base n tries = some identifier →
      Seeks taken base n identifier := by
  induction tries with
  | zero =>
    intro n h
    cases h
  | succ tries ih =>
    intro n h
    rw [firstFree] at h
    split at h
    next ht => exact .next (by simpa using ht) (ih h)
    next hn =>
      cases Option.some.inj h
      exact .free (by simpa using hn)

end

/-- The identifier that a case asks for: that of its value, or that of all other values. -/
def EnumCase.base (settings : NamingSettings) (case : EnumCase) : String :=
  match case.value with
  | some value => EnumModel.caseBase settings value
  | none => renderSegments settings [EnumModel.customSegment]

/-- Cases that were named one after the other, where some identifiers were taken before. -/
inductive EnumCase.Named (settings : NamingSettings) : List String → List EnumCase → Prop
  | nil {taken : List String} : Named settings taken []
  | cons {taken : List String} {case : EnumCase} {rest : List EnumCase}
      (given : Given taken (case.base settings) case.identifier)
      (later : Named settings (case.identifier :: taken) rest) :
      Named settings taken (case :: rest)

/-- Cases that were named one after the other have names that differ, also from those taken. -/
theorem EnumCase.Named.nodup {settings : NamingSettings} {taken : List String}
    {cases : List EnumCase} (h : EnumCase.Named settings taken cases) :
    (cases.map EnumCase.identifier).Nodup ∧
      ∀ identifier ∈ cases.map EnumCase.identifier, identifier ∉ taken := by
  induction h with
  | nil => simp
  | cons given _ ih =>
    obtain ⟨hrest, hfresh⟩ := ih
    rw [List.map_cons, List.nodup_cons]
    refine ⟨⟨fun hm => ?_, hrest⟩, fun identifier hm => ?_⟩
    · exact hfresh _ hm List.mem_cons_self
    · rcases List.mem_cons.mp hm with rfl | hm
      · exact given.not_mem
      · exact fun ht => hfresh identifier hm (List.mem_cons_of_mem _ ht)

/-- The values of the cases decide what their names are. -/
theorem EnumCase.Named.unique {settings : NamingSettings} {taken : List String}
    {cases : List EnumCase} (h : EnumCase.Named settings taken cases) :
    ∀ {others : List EnumCase}, EnumCase.Named settings taken others →
      others.map EnumCase.value = cases.map EnumCase.value → others = cases := by
  induction h with
  | nil => exact fun _ hvalues => List.map_eq_nil_iff.mp hvalues
  | @cons _ case _ given _ ih =>
    intro others h' hvalues
    cases h' with
    | nil => cases hvalues
    | @cons _ other _ given' later' =>
      obtain ⟨hvalue, hrest⟩ := List.cons.inj hvalues
      have hbase : other.base settings = case.base settings := by
        unfold EnumCase.base
        rw [hvalue]
      have hname : other.identifier = case.identifier := (hbase ▸ given').unique given
      have hcase : other = case := by
        cases other
        cases case
        cases hvalue
        cases hname
        rfl
      rw [hcase, ih (hcase ▸ later') hrest]

namespace EnumModel

variable {settings : NamingSettings}

/-- The number of tries is never what ends the search: among one more numbers than there are
identifiers taken, one is free. -/
theorem freeCase_given (taken : List String) (base : String) :
    Given taken base (freeCase taken base) := by
  unfold freeCase
  split
  next ht =>
    have hbase : base ∈ taken := by simpa using ht
    obtain ⟨identifier, hfree⟩ :=
      exists_firstFree (n := 2) (List.Subset.refl taken) hbase (Nat.le_succ taken.length)
    rw [hfree, Option.getD_some]
    exact .numbered hbase (seeks_of_firstFree _ hfree)
  next hn => exact .bare (by simpa using hn)

theorem values_nameCases (pairs : List (String × Option String)) : ∀ taken : List String,
    (nameCases taken pairs).map EnumCase.value = pairs.map Prod.snd := by
  induction pairs with
  | nil => exact fun _ => rfl
  | cons pair rest ih =>
    intro taken
    rw [nameCases, List.map_cons, List.map_cons, ih]

theorem nameCases_named (pairs : List (String × Option String)) : ∀ taken : List String,
    (∀ pair ∈ pairs, ∀ identifier, EnumCase.base settings ⟨identifier, pair.2⟩ = pair.1) →
      EnumCase.Named settings taken (nameCases taken pairs) := by
  induction pairs with
  | nil => exact fun _ _ => .nil
  | cons pair rest ih =>
    obtain ⟨base, value⟩ := pair
    intro taken hbase
    obtain ⟨hfirst, hrest⟩ := List.forall_mem_cons.mp hbase
    rw [nameCases]
    refine .cons ?_ (ih _ hrest)
    rw [hfirst]
    exact freeCase_given taken base

/-- An enum has one case for each of its values, in their order and with the value as it is, and
after these one case without a value just if it takes other values; their names all differ. They are
the only cases with these values that are named one after the other by a search that ends. -/
theorem cases_named (settings : NamingSettings) (model : EnumModel) :
    (model.cases settings).map EnumCase.value =
        model.values.map some ++ (if model.isOpen then [none] else []) ∧
      ((model.cases settings).map EnumCase.identifier).Nodup ∧
      ∀ cases, cases = model.cases settings ↔ EnumCase.Named settings [] cases ∧
        cases.map EnumCase.value =
          model.values.map some ++ (if model.isOpen then [none] else []) := by
  have hvalues : (model.cases settings).map EnumCase.value =
      model.values.map some ++ (if model.isOpen then [none] else []) := by
    rw [cases, values_nameCases, List.map_append, List.map_map]
    cases model.isOpen <;> rfl
  have hnamed : EnumCase.Named settings [] (model.cases settings) := by
    refine nameCases_named _ [] fun pair hm identifier => ?_
    rcases List.mem_append.mp hm with hknown | hcustom
    · obtain ⟨value, _, rfl⟩ := List.mem_map.mp hknown
      rfl
    · split at hcustom
      next =>
        cases List.mem_singleton.mp hcustom
        rfl
      next => cases hcustom
  refine ⟨hvalues, hnamed.nodup.1, fun cases => ⟨fun h => ?_, fun ⟨hother, hsame⟩ => ?_⟩⟩
  · rw [h]
    exact ⟨hnamed, hvalues⟩
  · exact hnamed.unique hother (hsame.trans hvalues.symm)

/-- The number of one value may be what a later one asks for, and a value may be called as the case
of all others. -/
example : (cases {} ⟨.extensible, .named "Size", ["s", "S", "s2", "custom", ""], none, none⟩).map
    EnumCase.identifier = ["S", "S2", "S22", "Custom", "Empty", "Custom2"] := by decide +kernel

end EnumModel

end ApiAtlas
