import ApiAtlas.Proofs.EntryOrder
import ApiAtlas.Resolve.Schema

namespace ApiAtlas

namespace PrimitiveKind

variable {first second joined wide : PrimitiveKind}

/-- Plain values of the wide kind can carry values of the other one. -/
def Fits (kind wide : PrimitiveKind) : Prop := kind = wide ∨ kind = .int ∧ wide = .double

/-- Two kinds are joined just where both fit a third one, and then what they are joined to is the
narrowest such kind. -/
theorem exists_join?_iff : (∃ joined, first.join? second = some joined ∧ joined.Fits wide) ↔
    first.Fits wide ∧ second.Fits wide := by
  cases first <;> cases second <;> cases wide <;> simp [join?, Fits]

theorem eq_join?_iff (h : first.join? second = some joined) (hf : first.Fits wide)
    (hs : second.Fits wide) : wide = joined ↔ wide = first ∨ wide = second := by
  cases first <;> cases second <;> cases h <;> simp_all [Fits]

end PrimitiveKind

namespace Json

variable {value : Json} {values other : List Json} {carrier second : PrimitiveKind}

/-- The values of a list that are not `null`. -/
def declared (values : List Json) : List Json := values.filter fun value => !value.isNull

/-- The value is a number, be it whole or not. -/
def isNumber : Json → Bool
  | .int _ => true
  | .float _ => true
  | _ => false

/-- The value is a number that is no whole one of 64 bits. -/
def isFloat : Json → Bool
  | .float _ => true
  | _ => false

/-- The values are of one sort, and plain values of the kind carry them. -/
def Carried (values : List Json) : PrimitiveKind → Prop
  | .string => ∀ value ∈ values, value.string?.isSome = true
  | .boolean => ∀ value ∈ values, value.bool?.isSome = true
  | .double => (∀ value ∈ values, value.isNumber = true) ∧ ∃ value ∈ values, value.isFloat = true
  | .int => (∀ value ∈ values, value.isNumber = true) ∧ ∀ value ∈ values, value.isFloat = false

/-- The text under which an enum lists a value: a string is its own text, and any other scalar has
its text in JSON. -/
def ownText : Json → String
  | .string text => text
  | .bool true => "true"
  | .bool false => "false"
  | .int z => toString z
  | value => value.toText

theorem toString_eq_intText (z : Int) : toString z = String.ofList (intText z) := by
  cases z with
  | ofNat n => rfl
  | negSucc n =>
    rw [intText, if_pos (Int.negSucc_lt_zero n), String.ofList_cons]
    rfl

theorem rawText_eq_ownText (value : Json) : value.rawText = value.ownText := by
  cases value with
  | bool b => cases b <;> rfl
  | int z =>
    rw [ownText, toString_eq_intText, rawText, toText, compact]
    exact nofun
  | _ => rfl

theorem string?_isSome_iff : value.string?.isSome = true ↔ value.carrier? = some .string := by
  cases value <;> simp [string?, carrier?]

theorem bool?_isSome_iff : value.bool?.isSome = true ↔ value.carrier? = some .boolean := by
  cases value <;> simp [bool?, carrier?]

theorem isFloat_iff : value.isFloat = true ↔ value.carrier? = some .double := by
  cases value <;> simp [isFloat, carrier?]

theorem isNumber_iff :
    value.isNumber = true ↔ ∃ kind, value.carrier? = some kind ∧ kind.Fits .double := by
  cases value <;> simp [isNumber, carrier?, PrimitiveKind.Fits]

theorem isNumber_and_not_isFloat_iff :
    value.isNumber = true ∧ value.isFloat = false ↔ value.carrier? = some .int := by
  cases value <;> simp [isNumber, isFloat, carrier?]

/-- Values of one kind that nothing else fits. -/
theorem fits_alone (hne : values ≠ []) (hfits : ∀ kind, kind.Fits carrier ↔ kind = carrier) :
    (∀ value ∈ values, value.carrier? = some carrier) ↔
      (∀ value ∈ values, ∃ kind, value.carrier? = some kind ∧ kind.Fits carrier) ∧
        ∃ value ∈ values, value.carrier? = some carrier := by
  obtain ⟨first, hfirst⟩ := List.exists_mem_of_ne_nil values hne
  simp only [hfits, exists_eq_right]
  exact ⟨fun h => ⟨h, first, hfirst, h first hfirst⟩, And.left⟩

/-- Each value fits the kind that carries them all, and one of them is of that kind. -/
theorem carried_iff (hne : values ≠ []) : Carried values carrier ↔
    (∀ value ∈ values, ∃ kind, value.carrier? = some kind ∧ kind.Fits carrier) ∧
      ∃ value ∈ values, value.carrier? = some carrier := by
  cases carrier with
  | string =>
    simp only [Carried, string?_isSome_iff]
    exact fits_alone hne fun kind => by simp [PrimitiveKind.Fits]
  | boolean =>
    simp only [Carried, bool?_isSome_iff]
    exact fits_alone hne fun kind => by simp [PrimitiveKind.Fits]
  | double => simp only [Carried, isNumber_iff, isFloat_iff]
  | int =>
    simp only [Carried, ← forall₂_and, isNumber_and_not_isFloat_iff]
    exact fits_alone hne fun kind => by simp [PrimitiveKind.Fits]

theorem exists_carried_iff : (∃ carrier, Carried values carrier) ↔
    (∀ value ∈ values, value.string?.isSome = true) ∨
      (∀ value ∈ values, value.bool?.isSome = true) ∨
        ∀ value ∈ values, value.isNumber = true := by
  constructor
  · rintro ⟨carrier, h⟩
    cases carrier with
    | string => exact .inl h
    | boolean => exact .inr (.inl h)
    | double => exact .inr (.inr h.1)
    | int => exact .inr (.inr h.1)
  · rintro (all | all | all)
    · exact ⟨.string, all⟩
    · exact ⟨.boolean, all⟩
    · by_cases hf : ∃ value ∈ values, value.isFloat = true
      · exact ⟨.double, all, hf⟩
      · refine ⟨.int, all, fun value hm => ?_⟩
        exact Bool.eq_false_iff.mpr fun he => hf ⟨value, hm, he⟩

theorem carried_perm (hne : values ≠ []) (hp : values.Perm other) :
    Carried values carrier ↔ Carried other carrier := by
  have hne' : other ≠ [] := fun he => hne (List.perm_nil.mp (he ▸ hp))
  rw [carried_iff hne, carried_iff hne']
  simp only [hp.mem_iff]

theorem Carried.unique (hne : values ≠ []) (h : Carried values carrier)
    (h' : Carried values second) : carrier = second := by
  obtain ⟨hfits, value, hm, hv⟩ := (carried_iff hne).mp h
  obtain ⟨hfits', value', hm', hv'⟩ := (carried_iff hne).mp h'
  obtain ⟨kind, hk, hfit⟩ := hfits value' hm'
  obtain ⟨kind', hk', hfit'⟩ := hfits' value hm
  cases hv.symm.trans hk'
  cases hv'.symm.trans hk
  rcases hfit with rfl | ⟨rfl, rfl⟩
  · rfl
  · rcases hfit' with he | ⟨he, -⟩ <;> cases he

end Json

/-- Values are listed by their texts, each text once. -/
def listText (texts : List String) (value : Json) : List String :=
  if texts.contains value.rawText then texts else texts ++ [value.rawText]

theorem foldl_listText (values : List Json) :
    values.foldl listText [] = (values.map Json.ownText).eraseDups := by
  induction values using List.reverseRecOn with
  | nil => rfl
  | append_singleton values value ih =>
    rw [List.foldl_concat, ih, List.map_append, List.map_singleton, Entries.eraseDups_concat]
    simp only [listText, Json.rawText_eq_ownText, List.contains_iff_mem, List.mem_eraseDups]

theorem collectEnum_declared (values : List Json) (carrier : Option PrimitiveKind)
    (texts : List String) :
    collectEnum carrier texts values = collectEnum carrier texts (Json.declared values) := by
  induction values generalizing carrier texts with
  | nil => rfl
  | cons value rest ih =>
    cases hn : value.isNull with
    | true =>
      have hrest : Json.declared (value :: rest) = Json.declared rest := by
        simp [Json.declared, hn]
      rw [hrest, collectEnum, if_pos hn, ih]
    | false =>
      have hrest : Json.declared (value :: rest) = value :: Json.declared rest := by
        simp [Json.declared, hn]
      rw [hrest, collectEnum, collectEnum]
      simp only [ih]

/-- Once a kind carries the values so far, the others are added just where there is a kind that all
of them fit and that one of them is of. -/
theorem collectEnum_some_iff (values : List Json) {first : PrimitiveKind}
    {carrier : Option PrimitiveKind} {texts texts' : List String}
    (hnull : ∀ value ∈ values, value.isNull = false) :
    collectEnum (some first) texts values = .ok (carrier, texts') ↔
      ∃ wide, carrier = some wide ∧ texts' = values.foldl listText texts ∧ first.Fits wide ∧
        (∀ value ∈ values, ∃ kind, value.carrier? = some kind ∧ kind.Fits wide) ∧
        (wide = first ∨ ∃ value ∈ values, value.carrier? = some wide) := by
  induction values generalizing first texts with
  | nil =>
    rw [collectEnum]
    constructor
    · intro h
      cases h
      exact ⟨first, rfl, rfl, .inl rfl, by simp, .inl rfl⟩
    · rintro ⟨wide, rfl, rfl, -, -, rfl | ⟨value, hm, -⟩⟩
      · rfl
      · cases hm
  | cons value rest ih =>
    obtain ⟨hvalue, hrest⟩ := List.forall_mem_cons.mp hnull
    rw [collectEnum, hvalue]
    simp only [Bool.false_eq_true, if_false, List.forall_mem_cons, List.exists_mem_cons_iff,
      List.foldl_cons]
    cases hkind : value.carrier? with
    | none => simp
    | some kind =>
      simp only [Option.elim, Option.some.injEq, exists_eq_left']
      cases hjoin : first.join? kind with
      | none =>
        simp only [reduceCtorEq, false_iff]
        rintro ⟨wide, -, -, hf, ⟨hk, -⟩, -⟩
        obtain ⟨joined, hj, -⟩ := PrimitiveKind.exists_join?_iff.mpr ⟨hf, hk⟩
        cases hjoin.symm.trans hj
      | some joined =>
        simp only
        rw [← listText, ih hrest]
        refine exists_congr fun wide => and_congr_right fun _ => and_congr_right fun _ => ?_
        constructor
        · rintro ⟨hj, hall, hw⟩
          obtain ⟨hf, hk⟩ := PrimitiveKind.exists_join?_iff.mp ⟨joined, hjoin, hj⟩
          refine ⟨hf, ⟨hk, hall⟩, ?_⟩
          rw [PrimitiveKind.eq_join?_iff hjoin hf hk, or_assoc] at hw
          simpa only [hkind, Option.some.injEq, eq_comm] using hw
        · rintro ⟨hf, ⟨hk, hall⟩, hw⟩
          obtain ⟨_, hj, hfit⟩ := PrimitiveKind.exists_join?_iff.mpr ⟨hf, hk⟩
          cases hjoin.symm.trans hj
          refine ⟨hfit, hall, ?_⟩
          rw [PrimitiveKind.eq_join?_iff hjoin hf hk, or_assoc]
          simpa only [eq_comm] using hw

theorem collectEnum_none_iff {values : List Json} {carrier : PrimitiveKind}
    {texts : List String} : collectEnum none [] values = .ok (some carrier, texts) ↔
      Json.declared values ≠ [] ∧ Json.Carried (Json.declared values) carrier ∧
        texts = ((Json.declared values).map Json.ownText).eraseDups := by
  have hnull : ∀ value ∈ Json.declared values, value.isNull = false := by
    intro value hm
    simpa using (List.mem_filter.mp hm).2
  rw [collectEnum_declared, ← foldl_listText]
  generalize Json.declared values = declared at hnull
  cases declared with
  | nil => simp [collectEnum]
  | cons first rest =>
    obtain ⟨hfirst, hrest⟩ := List.forall_mem_cons.mp hnull
    have hne : first :: rest ≠ [] := List.cons_ne_nil first rest
    rw [Json.carried_iff hne, collectEnum, hfirst]
    simp only [Bool.false_eq_true, if_false, List.forall_mem_cons, List.exists_mem_cons_iff,
      List.foldl_cons]
    cases hkind : first.carrier? with
    | none => simp
    | some kind =>
      simp only [Option.elim]
      rw [← listText, collectEnum_some_iff rest hrest]
      simp only [Option.some.injEq, exists_eq_left', ne_eq, hne, not_false_eq_true, true_and]
      constructor
      · rintro ⟨htexts, hfirst, hall, hw⟩
        exact ⟨⟨⟨hfirst, hall⟩, hw.imp_left Eq.symm⟩, htexts⟩
      · rintro ⟨⟨⟨hfirst, hall⟩, hw⟩, htexts⟩
        exact ⟨htexts, hfirst, hall, hw.imp_left Eq.symm⟩

namespace Registry

variable {registry : Registry} {schema : Schema} {values : List Json} {pos : Position}
  {model : Model}

/-- The enum of values that a kind carries. -/
def enumOf (registry : Registry) (schema : Schema) (values : List Json) (pos : Position)
    (carrier : PrimitiveKind) : EnumModel :=
  let texts := (values.map Json.ownText).eraseDups
  let fallback := (schema.defaultValue.filter fun v => !v.isNull).map Json.ownText
  if isFlagged schema.extensions registry.openExtensions then
    ⟨.extensible, pos.context, texts, fallback, schema.description⟩
  else ⟨.closed carrier, pos.context, texts, fallback.filter texts.contains, schema.description⟩

theorem map_rawText (default : Option Json) : default.map Json.rawText = default.map Json.ownText :=
  Option.map_congr fun value _ => Json.rawText_eq_ownText value

theorem buildEnum_eq_ok_iff : registry.buildEnum schema values pos = .ok model ↔
    ∃ carrier, Json.declared values ≠ [] ∧ Json.Carried (Json.declared values) carrier ∧
      model = .enum (registry.enumOf schema (Json.declared values) pos carrier) := by
  unfold buildEnum enumOf
  rw [map_rawText]
  constructor
  · intro h
    split at h
    next => cases h
    next => cases h
    next carrier texts hc =>
      obtain ⟨hne, hcarried, rfl⟩ := collectEnum_none_iff.mp hc
      refine ⟨carrier, hne, hcarried, ?_⟩
      simp only at h ⊢
      split at h <;> (cases h; simp [*])
  · rintro ⟨carrier, hne, hcarried, rfl⟩
    rw [collectEnum_none_iff.mpr ⟨hne, hcarried, rfl⟩]
    simp only
    split <;> rfl

/-- The enum lists the values, which are carried by the kind. -/
structure Lists (registry : Registry) (schema : Schema) (values : List Json) (pos : Position)
    (carrier : PrimitiveKind) (enum : EnumModel) : Prop where
  context : enum.context = pos.context
  description : enum.description = schema.description
  texts : enum.values = (values.map Json.ownText).eraseDups
  kind : enum.kind =
    if isFlagged schema.extensions registry.openExtensions then .extensible else .closed carrier
  fallback : ∀ text, enum.fallback = some text ↔
    (∃ value, schema.defaultValue = some value ∧ value.isNull = false ∧ value.ownText = text) ∧
      (enum.isOpen = false → text ∈ enum.values)

theorem enumOf_lists (carrier : PrimitiveKind) :
    registry.Lists schema values pos carrier (registry.enumOf schema values pos carrier) := by
  have hdefault (text : String) :
      (schema.defaultValue.filter fun v => !v.isNull).map Json.ownText = some text ↔
        ∃ value, schema.defaultValue = some value ∧ value.isNull = false ∧
          value.ownText = text := by
    simp [Option.map_eq_some_iff, Option.filter_eq_some_iff, and_assoc]
  unfold enumOf
  simp only
  split
  next hopen =>
    refine ⟨rfl, rfl, rfl, by rw [if_pos hopen], fun text => ?_⟩
    simp [hdefault, EnumModel.isOpen]
  next hclosed =>
    refine ⟨rfl, rfl, rfl, by rw [if_neg hclosed], fun text => ?_⟩
    simp [Option.filter_eq_some_iff, hdefault, EnumModel.isOpen]

/-- A list of values makes an enum just where, without its nulls, it has values and they are all
texts, all booleans or all numbers. The enum lists their texts, each where it comes first; where it
takes no others, its values are carried by the kind of that sort, which is the one for fractions if
there is one among the numbers, and it keeps a default that is one of them. Neither whether there is
an enum nor what carries its values depends on the order of the list. -/
theorem buildEnum_exact (registry : Registry) (schema : Schema) (values : List Json)
    (pos : Position) :
    ((∃ model, registry.buildEnum schema values pos = .ok model) ↔
      Json.declared values ≠ [] ∧
        ((∀ value ∈ Json.declared values, value.string?.isSome = true) ∨
          (∀ value ∈ Json.declared values, value.bool?.isSome = true) ∨
            ∀ value ∈ Json.declared values, value.isNumber = true)) ∧
    (∀ model, registry.buildEnum schema values pos = .ok model → ∃ carrier enum,
      Json.Carried (Json.declared values) carrier ∧ model = .enum enum ∧
        registry.Lists schema (Json.declared values) pos carrier enum) ∧
    ∀ other, values.Perm other →
      ((∃ model, registry.buildEnum schema values pos = .ok model) ↔
        ∃ model, registry.buildEnum schema other pos = .ok model) ∧
      ∀ enum enum', registry.buildEnum schema values pos = .ok (.enum enum) →
        registry.buildEnum schema other pos = .ok (.enum enum') → enum.kind = enum'.kind := by
  have hsucceeds (values : List Json) :
      (∃ model, registry.buildEnum schema values pos = .ok model) ↔
        Json.declared values ≠ [] ∧ ∃ carrier, Json.Carried (Json.declared values) carrier := by
    simp only [buildEnum_eq_ok_iff]
    constructor
    · rintro ⟨model, carrier, hne, hcarried, -⟩
      exact ⟨hne, carrier, hcarried⟩
    · rintro ⟨hne, carrier, hcarried⟩
      exact ⟨_, carrier, hne, hcarried, rfl⟩
  refine ⟨by rw [hsucceeds, Json.exists_carried_iff], fun model h => ?_, fun other hp => ?_⟩
  · obtain ⟨carrier, -, hcarried, rfl⟩ := buildEnum_eq_ok_iff.mp h
    exact ⟨carrier, _, hcarried, rfl, enumOf_lists carrier⟩
  · have hdeclared : (Json.declared values).Perm (Json.declared other) := hp.filter _
    refine ⟨?_, fun enum enum' h h' => ?_⟩
    · rw [hsucceeds, hsucceeds, Json.exists_carried_iff, Json.exists_carried_iff]
      simp only [hdeclared.mem_iff, ne_eq, ← List.length_eq_zero_iff, hdeclared.length_eq]
    · obtain ⟨carrier, hne, hcarried, he⟩ := buildEnum_eq_ok_iff.mp h
      obtain ⟨carrier', -, hcarried', he'⟩ := buildEnum_eq_ok_iff.mp h'
      cases he
      cases he'
      rw [(enumOf_lists carrier).kind, (enumOf_lists carrier').kind,
        hcarried.unique hne ((Json.carried_perm hne hdeclared).mpr hcarried')]

/-- Numbers with a `null`, a fraction and a repetition among them. -/
def stepValues : List Json :=
  [.int 1, .null, .float ⟨false, 5629499534213120, -51⟩, .int 1, .int (-3)]

/-- A default is kept where it is one of the values, and dropped where it is not. -/
theorem buildEnum_exact_steps :
    let build (fallback : Int) := (⟨[], []⟩ : Registry).buildEnum
      { defaultValue := some (.int fallback) } stepValues
      ⟨.named "Step", [], "#/components/schemas/Step"⟩
    let listed (fallback : Option String) : Model :=
      .enum ⟨.closed .double, .named "Step", ["1", "2.5", "-3"], fallback, none⟩
    build (-3) = .ok (listed (some "-3")) ∧ build 4 = .ok (listed none) := by
  intro build listed
  have hdouble : Json.Carried (Json.declared stepValues) .double := by
    simp [Json.Carried, Json.declared, stepValues, Json.isNull, Json.isNumber, Json.isFloat]
  have hne : Json.declared stepValues ≠ [] := by
    simp [Json.declared, stepValues, Json.isNull]
  have htexts : ((Json.declared stepValues).map Json.ownText).eraseDups = ["1", "2.5", "-3"] := by
    decide +kernel
  have hbuild (fallback : Int) : ∃ kept : Option String, build fallback = .ok (listed kept) ∧
      ∀ text, kept = some text ↔ toString fallback = text ∧ text ∈ ["1", "2.5", "-3"] := by
    obtain ⟨haccepts, hlists, -⟩ := buildEnum_exact ⟨[], []⟩
      { defaultValue := some (.int fallback) } stepValues
      ⟨.named "Step", [], "#/components/schemas/Step"⟩
    obtain ⟨model, hm⟩ := haccepts.mpr ⟨hne, .inr (.inr hdouble.1)⟩
    obtain ⟨carrier, ⟨kind, context, values, kept, description⟩, hcarried, rfl, hl⟩ :=
      hlists model hm
    cases hcarried.unique hne hdouble
    obtain ⟨rfl, rfl, rfl, rfl, hkept⟩ := hl
    refine ⟨kept, ?_, fun text => ?_⟩
    · simp only [build, hm, listed, htexts]
      rfl
    · rw [htexts] at hkept
      simpa [EnumModel.isOpen, isFlagged, Json.isNull, Json.ownText] using hkept text
  refine ⟨?_, ?_⟩
  · obtain ⟨kept, hb, hk⟩ := hbuild (-3)
    rw [hb, (hk "-3").mpr (by decide)]
  · obtain ⟨kept, hb, hk⟩ := hbuild 4
    have hnone : kept = none := Option.eq_none_iff_forall_ne_some.mpr fun text he => by
      obtain ⟨rfl, hm⟩ := (hk text).mp he
      revert hm
      decide
    rw [hb, hnone]

end Registry

end ApiAtlas
