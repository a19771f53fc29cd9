import ApiAtlas.Proofs.EntryOrder
import ApiAtlas.Proofs.ReferenceChains
import ApiAtlas.Proofs.TransparentWrappers
import ApiAtlas.Resolve.Operation

namespace ApiAtlas

namespace Entries

variable {κ α : Type} [DecidableEq κ] {entries : List (κ × α)}

theorem values_of_nodup (h : (keys entries).Nodup) :
    (keys entries).filterMap (get? entries) = values entries := by
  rw [keys, List.filterMap_map, values, ← List.filterMap_eq_map]
  exact List.filterMap_congr fun pair hm => get?_of_mem_nodup h hm

/-- Set one after the other, the last value of each key stays, where the key came first. -/
theorem values_foldl_set (pairs : List (κ × α)) :
    values (pairs.foldl (fun entries (key, value) => set key value entries) []) =
      (keys pairs).eraseDups.filterMap (get? pairs.reverse) := by
  rw [← values_of_nodup (nodup_keys_foldl_set pairs), keys_foldl_set]
  exact List.filterMap_congr fun key _ => get?_foldl_set pairs key

theorem get?_map_of_key (f : α → κ) (items : List α) (key : κ) :
    get? (items.map fun item => (f item, item)) key = items.find? (f · = key) := by
  induction items with
  | nil => rfl
  | cons item rest ih =>
    rw [List.map_cons, get?_cons, ih, List.find?_cons]
    by_cases hk : f item = key <;> simp [hk]

end Entries

/-- What two parameters may not share if both count. -/
def Parameter.key (parameter : Parameter) : String × ParameterLocation :=
  (parameter.name, parameter.location)

/-- The name and the location of a parameter with its type. -/
def Input.key (input : Input) : String × ParameterLocation := (input.name, input.location)

namespace Parameter

variable {parameter : Parameter} {all : List Parameter}

/-- The parameter is one of them, and none of those after it has its name and its location. -/
def LastIn (parameter : Parameter) (all : List Parameter) : Prop :=
  ∃ before later, all = before ++ parameter :: later ∧ parameter.key ∉ later.map key

/-- The parameters that count. -/
def effective (all : List Parameter) : List Parameter :=
  (all.map key).eraseDups.filterMap fun name => all.reverse.find? (key · = name)

/-- The parameter with its type. One of the path has to be given. -/
def typed (parameter : Parameter) (model : Resolved) (nullable : Bool) : Input where
  name := parameter.name
  location := parameter.location
  model := model
  required := parameter.required || parameter.location == .path
  nullable := nullable
  description := parameter.description
  deprecated := parameter.deprecated.getD false

/-- The parameters that count by name and location. -/
def keyed (all : List Parameter) : List ((String × ParameterLocation) × Parameter) :=
  (all.map fun parameter => (parameter.key, parameter)).foldl
    (fun entries (key, value) => Entries.set key value entries) []

/-- Names are compared in one way only. -/
theorem eraseDups_keys (names : List (String × ParameterLocation)) :
    @List.eraseDups _ instBEqOfDecidableEq names = names.eraseDups := by
  rw [lawful_beq_subsingleton instBEqOfDecidableEq instBEqProd]

theorem keyed_keys (all : List Parameter) :
    Entries.keys (all.map fun parameter => (parameter.key, parameter)) = all.map key := by
  simp [Entries.keys, Function.comp_def]

theorem values_keyed (all : List Parameter) : Entries.values (keyed all) = effective all := by
  rw [keyed, Entries.values_foldl_set, keyed_keys, effective, eraseDups_keys]
  simp only [← List.map_reverse, Entries.get?_map_of_key]

theorem mem_effective (h : parameter ∈ effective all) : parameter.LastIn all := by
  obtain ⟨name, -, hfound⟩ := List.mem_filterMap.mp h
  have hname : parameter.key = name := by simpa using List.find?_some hfound
  rw [← Entries.get?_map_of_key, List.map_reverse] at hfound
  obtain ⟨before, later, hsplit, hlast⟩ := Entries.exists_last_of_get?_reverse hfound
  obtain ⟨first, rest, hall, rfl, hrest⟩ := List.map_eq_append_iff.mp hsplit
  obtain ⟨same, others, rfl, hsame, rfl⟩ := List.map_eq_cons_iff.mp hrest
  cases congrArg Prod.snd hsame
  rw [keyed_keys] at hlast
  exact ⟨first, others, hall, hname ▸ hlast⟩

theorem keys_effective (all : List Parameter) :
    (effective all).map key = (all.map key).eraseDups := by
  have hown : ∀ pair ∈ keyed all, pair.2.key = pair.1 := by
    intro pair hm
    obtain ⟨parameter, -, rfl⟩ := List.mem_map.mp (Entries.mem_of_mem_foldl_set hm)
    rfl
  calc (effective all).map key = (keyed all).map fun pair => pair.2.key := by
        rw [← values_keyed, Entries.values, List.map_map]
        rfl
    _ = Entries.keys (keyed all) := List.map_congr_left hown
    _ = (all.map key).eraseDups := by
        rw [keyed, Entries.keys_foldl_set, keyed_keys, eraseDups_keys]

end Parameter

namespace Surroundings

variable {around : Surroundings} {errand : Errand} {endpoint : Endpoint}
  {nodes : List (Referable Parameter)} {params all : List Parameter} {arena after : Arena}
  {inputs : List Input}

/-- The parameters that nodes lead to. -/
def Reaches (around : Surroundings) (nodes : List (Referable Parameter))
    (params : List Parameter) : Prop :=
  List.Forall₂ (fun node parameter => ∃ names, Referable.Leads .parameters
    around.components.parameters node names (.inline parameter)) nodes params

/-- Parameters with their keys, each listed at its location. -/
def listedAt (parent : String) (params : List Parameter) (start : Nat) :
    List ((String × ParameterLocation) × Listed) :=
  (params.zipIdx start).map fun (parameter, index) =>
    (parameter.key, (parameter, below (below parent "parameters") (toString index)))

theorem map_listedAt (parent : String) (params : List Parameter) (start : Nat) :
    (listedAt parent params start).map (fun (key, listed) => (key, listed.1)) =
      params.map fun parameter => (parameter.key, parameter) := by
  induction params generalizing start with
  | nil => rfl
  | cons parameter rest ih => exact congrArg _ (ih (start + 1))

theorem listParameters_eq (h : around.Reaches nodes params) (parent : String)
    (listed : List ((String × ParameterLocation) × Listed)) :
    around.listParameters parent listed nodes = .ok ((listedAt parent params 0).foldl
      (fun entries (key, value) => Entries.set key value entries) listed) := by
  unfold listParameters
  generalize 0 = start
  induction h generalizing listed start with
  | nil => rfl
  | cons leads _ ih =>
    obtain ⟨names, hleads⟩ := leads
    rw [List.zipIdx_cons, List.foldlM_cons]
    simp only [(Referable.Meets.value hleads).follow]
    exact ih _ (start + 1)

theorem effectiveParameters_eq {shared own : List Parameter}
    (hs : around.Reaches endpoint.item.parameters shared)
    (ho : around.Reaches endpoint.operation.parameters own) (pointer : String) :
    around.effectiveParameters endpoint pointer = .ok (Entries.values
      ((listedAt (parentPointer pointer) shared 0 ++ listedAt pointer own 0).foldl
        (fun entries (key, value) => Entries.set key value entries) [])) := by
  unfold effectiveParameters
  rw [listParameters_eq hs, List.foldl_append]
  simp only [bind, Except.bind, listParameters_eq ho]
  rfl

theorem map_values_listedAt (shared own : List Parameter) (parent pointer : String) :
    (Entries.values ((listedAt parent shared 0 ++ listedAt pointer own 0).foldl
      (fun entries (key, value) => Entries.set key value entries) [])).map Prod.fst =
        Parameter.effective (shared ++ own) := by
  have hplaceless := Entries.foldl_set_map (fun listed : Listed => listed.1)
    (listedAt parent shared 0 ++ listedAt pointer own 0) []
  rw [List.map_append, map_listedAt, map_listedAt, ← List.map_append, List.map_nil] at hplaceless
  rw [← Parameter.values_keyed, Parameter.keyed, ← hplaceless, Entries.values, Entries.values,
    List.map_map, List.map_map]
  rfl

theorem resolveInput_of_schema {parameter : Parameter} {schema : SchemaNode}
    (h : parameter.valueSchema? = some schema) (place : String) :
    around.resolveInput errand (parameter, place) = (do
      let model ← around.registry.resolve schema
        ⟨(Site.parameter errand.name parameter.name).context, errand.scope, below place "schema"⟩
      pure (parameter.typed model schema.admitsNull)) := by
  simp only [resolveInput, h, pure_bind]
  rfl

theorem resolveInput_of_text {parameter : Parameter} (h : parameter.valueSchema? = none)
    (place : String) :
    around.resolveInput errand (parameter, place) = (do
      let id ← Resolving.push (.primitive (.string none)) errand.scope
      pure (parameter.typed (.value id) false)) := by
  simp only [resolveInput, h, pure_bind]
  rfl

/-- It does not matter to a parameter where it is listed. -/
theorem resolveInput_agrees (parameter : Parameter) (place place' : String) :
    (around.resolveInput errand (parameter, place)).Agrees
      (around.resolveInput errand (parameter, place')) := by
  cases hs : parameter.valueSchema? with
  | none =>
    rw [resolveInput_of_text hs, resolveInput_of_text hs]
    exact Resolving.Agrees.refl _
  | some schema =>
    rw [resolveInput_of_schema hs, resolveInput_of_schema hs]
    exact (Registry.resolve_placeless schema _ _ _ _).bind fun _ => Resolving.Agrees.refl _

/-- Without its type only the surroundings' registry matters to a parameter. -/
theorem resolveInput_congr {other : Surroundings} (h : other.registry = around.registry)
    (listed : Listed) : other.resolveInput errand listed = around.resolveInput errand listed := by
  unfold resolveInput
  rw [h]

/-- An operation has its parameters that count as input, wherever these are listed. -/
theorem resolveInputs_agrees {shared own : List Parameter}
    (hs : around.Reaches endpoint.item.parameters shared)
    (ho : around.Reaches endpoint.operation.parameters own) :
    (around.resolveInputs errand endpoint).Agrees
      ((Parameter.effective (shared ++ own)).mapM fun parameter =>
        around.resolveInput errand (parameter, "")) := by
  unfold resolveInputs
  rw [effectiveParameters_eq hs ho, ← map_values_listedAt shared own (parentPointer errand.pointer)
    errand.pointer, List.mapM_map]
  exact Resolving.Agrees.mapM fun (parameter, place) => resolveInput_agrees parameter place ""

/-- From an arena a parameter comes to an input and leaves an arena: its schema is resolved, or it
is a string. -/
inductive Types (around : Surroundings) (errand : Errand) (parameter : Parameter) (arena : Arena) :
    Input → Arena → Prop
  | schema {schema : SchemaNode} {model : Resolved} {after : Arena}
    (written : parameter.valueSchema? = some schema)
    (resolves : ∀ place, Resolving.outcome (around.registry.resolve schema
      ⟨(Site.parameter errand.name parameter.name).context, errand.scope, place⟩) arena =
        (.ok model, after)) :
    Types around errand parameter arena (parameter.typed model schema.admitsNull) after
  | text (written : parameter.valueSchema? = none) :
    Types around errand parameter arena (parameter.typed (.value arena.slots.length) false)
      (arena.push (.primitive (.string none)) errand.scope).2

/-- Parameters come to inputs one after the other. -/
inductive TypesEach (around : Surroundings) (errand : Errand) :
    List Parameter → Arena → List Input → Arena → Prop
  | done {arena : Arena} : TypesEach around errand [] arena [] arena
  | next {parameter : Parameter} {rest : List Parameter} {input : Input} {inputs : List Input}
    {arena middle after : Arena} (first : around.Types errand parameter arena input middle)
    (others : TypesEach around errand rest middle inputs after) :
    TypesEach around errand (parameter :: rest) arena (input :: inputs) after

theorem outcome_resolveInput_iff {parameter : Parameter} {place : String} {input : Input} :
    Resolving.outcome (around.resolveInput errand (parameter, place)) arena = (.ok input, after) ↔
      around.Types errand parameter arena input after := by
  cases hs : parameter.valueSchema? with
  | none =>
    have hpush : Resolving.outcome (around.resolveInput errand (parameter, place)) arena =
        (.ok (parameter.typed (.value arena.slots.length) false),
          (arena.push (.primitive (.string none)) errand.scope).2) := by
      rw [resolveInput_of_text hs]
      rfl
    rw [hpush]
    constructor
    · intro h
      obtain ⟨hinput, rfl⟩ := Prod.mk.inj h
      cases Except.ok.inj hinput
      exact .text hs
    · intro h
      cases h with
      | schema written => cases hs.symm.trans written
      | text => rfl
  | some schema =>
    rw [resolveInput_of_schema hs, Resolving.outcome_bind_eq_ok]
    constructor
    · rintro ⟨model, middle, hmodel, hinput⟩
      obtain ⟨rfl, rfl⟩ := Resolving.outcome_pure_eq_ok.mp hinput
      refine .schema hs fun other => ?_
      exact (Registry.resolve_placeless schema _ _ _ other).eq_ok hmodel
    · intro h
      cases h with
      | schema written resolves =>
        cases hs.symm.trans written
        exact ⟨_, _, resolves _, rfl⟩
      | text written => cases hs.symm.trans written

theorem outcome_resolveInputs_iff : Resolving.outcome (params.mapM fun parameter =>
    around.resolveInput errand (parameter, "")) arena = (.ok inputs, after) ↔
      around.TypesEach errand params arena inputs after := by
  induction params generalizing arena inputs after with
  | nil =>
    rw [List.mapM_nil, Resolving.outcome_pure_eq_ok]
    constructor
    · rintro ⟨rfl, rfl⟩
      exact .done
    · intro h
      cases h
      exact ⟨rfl, rfl⟩
  | cons parameter rest ih =>
    rw [List.mapM_cons, Resolving.outcome_bind_eq_ok]
    simp only [Resolving.outcome_bind_eq_ok, Resolving.outcome_pure_eq_ok, outcome_resolveInput_iff,
      ih]
    constructor
    · rintro ⟨input, middle, hfirst, others, last, hothers, rfl, rfl⟩
      exact .next hfirst hothers
    · intro h
      cases h with
      | next first others => exact ⟨_, _, first, _, _, others, rfl, rfl⟩

theorem Types.key_eq {parameter : Parameter} {input : Input}
    (h : around.Types errand parameter arena input after) : input.key = parameter.key := by
  cases h <;> rfl

theorem TypesEach.keys_eq (h : around.TypesEach errand params arena inputs after) :
    inputs.map Input.key = params.map Parameter.key := by
  induction h with
  | done => rfl
  | next first _ ih => rw [List.map_cons, List.map_cons, first.key_eq, ih]

/-- The input of an operation is made of the parameters of its path and then its own. Each name with
a location stands once, where it comes first, and all there is to it comes from the parameter that
comes last. The models added are those of these parameters, and the others do not matter even to
whether the operation fails. -/
theorem inputs_merged {shared own : List Parameter} (errand : Errand)
    (hs : around.Reaches endpoint.item.parameters shared)
    (ho : around.Reaches endpoint.operation.parameters own) :
    let all := shared ++ own
    let counting := Parameter.effective all
    (counting.map Parameter.key = (all.map Parameter.key).eraseDups ∧
      ∀ parameter ∈ counting, parameter.LastIn all) ∧
    (∀ arena inputs after,
      Resolving.outcome (around.resolveInputs errand endpoint) arena = (.ok inputs, after) ↔
        around.TypesEach errand counting arena inputs after) ∧
    (∀ arena inputs after,
      Resolving.outcome (around.resolveInputs errand endpoint) arena = (.ok inputs, after) →
        inputs.map Input.key = (all.map Parameter.key).eraseDups) ∧
    ∀ (around' : Surroundings) (other : Endpoint) (shared' own' : List Parameter),
      around'.registry = around.registry → around'.Reaches other.item.parameters shared' →
        around'.Reaches other.operation.parameters own' →
          Parameter.effective (shared' ++ own') = counting →
            (around'.resolveInputs errand other).Agrees (around.resolveInputs errand endpoint) := by
  intro all counting
  have hkeys : counting.map Parameter.key = (all.map Parameter.key).eraseDups :=
    Parameter.keys_effective all
  have hagrees : (around.resolveInputs errand endpoint).Agrees (counting.mapM fun parameter =>
      around.resolveInput errand (parameter, "")) := resolveInputs_agrees hs ho
  have htypes : ∀ arena inputs after,
      Resolving.outcome (around.resolveInputs errand endpoint) arena = (.ok inputs, after) ↔
        around.TypesEach errand counting arena inputs after := fun arena inputs after =>
    hagrees.eq_ok_iff.trans outcome_resolveInputs_iff
  refine ⟨⟨hkeys, fun _ => Parameter.mem_effective⟩, htypes, fun arena inputs after h => ?_, ?_⟩
  · rw [← hkeys, ((htypes arena inputs after).mp h).keys_eq]
  · -- Both come to the parameters that count, and these are resolved from the registry alone.
    intro around' other shared' own' hregistry hs' ho' hsame
    refine (resolveInputs_agrees hs' ho').trans (Resolving.Agrees.trans ?_ hagrees.symm)
    rw [hsame]
    simp only [resolveInput_congr hregistry]
    exact Resolving.Agrees.refl _

/-- A limit of the operation's own. -/
def ownLimit : Parameter := { name := "limit", location := .query, required := true }

/-- A number in the path. -/
def petId : Parameter := { name := "id", location := .path }

/-- A limit for all operations, whose schema leads nowhere. -/
def sharedLimit : Parameter :=
  { name := "limit", location := .query, schema := some (.ref "#/components/schemas/Limit") }

/-- An operation that sets its own limit in the place of the one of its path. -/
def limited : Endpoint where
  path := "/pets/\x7bid\x7d"
  item := { parameters := [.ref "#/components/parameters/Limit", .inline petId] }
  method := .get
  operation := { parameters := [.inline ownLimit] }

theorem inputs_merged_limited :
    let around : Surroundings := ⟨⟨[], []⟩, { parameters := [("Limit", .inline sharedLimit)] }, {}⟩
    ∃ after, Resolving.outcome (around.resolveInputs ⟨"getPet", [], "#"⟩ limited) {} =
      (.ok [ownLimit.typed (.value 0) false, petId.typed (.value 1) false], after) := by
  intro around
  have hs : around.Reaches limited.item.parameters [sharedLimit, petId] :=
    .cons ⟨["Limit"], .next (Section.named?_eq_some_iff.mp (by decide +kernel)) rfl .here⟩
      (.cons ⟨_, .here⟩ .nil)
  have ho : around.Reaches limited.operation.parameters [ownLimit] := .cons ⟨_, .here⟩ .nil
  have hcounting : Parameter.effective ([sharedLimit, petId] ++ [ownLimit]) = [ownLimit, petId] := rfl
  have htypes := (inputs_merged ⟨"getPet", [], "#"⟩ hs ho).2.1
  rw [hcounting] at htypes
  exact ⟨_, (htypes _ _ _).mpr (.next (.text rfl) (.next (.text rfl) .done))⟩

end Surroundings

end ApiAtlas
