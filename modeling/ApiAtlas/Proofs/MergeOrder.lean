import ApiAtlas.Proofs.DistinctKeys
import ApiAtlas.Proofs.Flattening
import ApiAtlas.Proofs.ModelStandards
import ApiAtlas.Proofs.ObjectFacts

namespace ApiAtlas

/-- The property, whether it is required left open. -/
def Property.leftOpen (property : Property) : Property := { property with required := false }

/-- Properties by their names, whether they are required left open. -/
def openPairs (properties : List Property) : List (String × Property) :=
  properties.map fun property => (property.name, property.leftOpen)

theorem keys_openPairs (properties : List Property) :
    Entries.keys (openPairs properties) = properties.map Property.name := by
  simp [Entries.keys, openPairs]

/-- All properties that some parts bring, from the first to the last. -/
def Contribution.sequence (parts : List Contribution) : List Property :=
  parts.flatMap Contribution.properties

open Contribution (sequence)

/-- The object has the properties that some parts bring, each name at its first place. Of the parts
that bring a property of one name the last one decides on all but whether it is required. -/
structure ObjectModel.Collects (object : ObjectModel) (parts : List Contribution) : Prop where
  order : object.properties.map Property.name = ((sequence parts).map Property.name).eraseDups
  distinct : (object.properties.map Property.name).Nodup
  last : ∀ property ∈ object.properties, ∃ before last after,
    sequence parts = before ++ last :: after ∧
      property = { last with required := property.required } ∧
      ∀ later ∈ after, later.name ≠ property.name
  additional : object.additional = parts.any Contribution.additional

theorem ObjectModel.collects_of_openPairs {object : ObjectModel} {parts : List Contribution}
    (h : openPairs object.properties = Entries.ofPairs (openPairs (sequence parts)))
    (ha : object.additional = parts.any Contribution.additional) : object.Collects parts := by
  have horder : object.properties.map Property.name =
      ((sequence parts).map Property.name).eraseDups := by
    rw [← keys_openPairs, h, Entries.keys_ofPairs, keys_openPairs]
  refine ⟨horder, horder ▸ Entries.nodup_eraseDups _, fun property hm => ?_, ha⟩
  have hpair : (property.name, property.leftOpen) ∈
      Entries.ofPairs (openPairs (sequence parts)) := h ▸ List.mem_map_of_mem hm
  have hfound := Entries.get?_of_mem_nodup (Entries.nodup_keys_ofPairs _) hpair
  rw [Entries.get?_ofPairs] at hfound
  obtain ⟨before, after, he, hn⟩ := Entries.exists_last_of_get?_reverse hfound
  obtain ⟨first, rest, hsequence, -, hrest⟩ := List.map_eq_append_iff.mp he
  obtain ⟨last, later, rfl, hlast, rfl⟩ := List.map_eq_cons_iff.mp hrest
  have hleft : last.leftOpen = property.leftOpen := congrArg Prod.snd hlast
  have hproperty : { last with required := property.required } = property :=
    congrArg (fun p : Property => { p with required := property.required }) hleft
  refine ⟨first, last, later, hsequence, hproperty.symm, fun other ho he => hn ?_⟩
  exact List.mem_map.mpr ⟨_, List.mem_map_of_mem ho, he⟩

namespace Merged

variable {merged : Merged} {parts : List Contribution}

def openPairs (merged : Merged) : List (String × Property) :=
  merged.properties.map fun (name, property) => (name, property.leftOpen)

/-- Put in pairs, each in the place of an earlier one of its name. -/
abbrev setAll (entries pairs : List (String × Property)) : List (String × Property) :=
  pairs.foldl (fun entries (name, property) => Entries.set name property entries) entries

theorem openPairs_insert (property : Property) : (merged.insert property).openPairs =
    Entries.set property.name property.leftOpen merged.openPairs :=
  Entries.set_map Property.leftOpen property.name _ merged.properties

theorem openPairs_foldl_insert (properties : List Property) : ∀ merged : Merged,
    (properties.foldl Merged.insert merged).openPairs =
      setAll merged.openPairs (ApiAtlas.openPairs properties) := by
  induction properties with
  | nil => exact fun merged => rfl
  | cons property rest ih =>
    intro merged
    rw [List.foldl_cons, ih, openPairs_insert]
    rfl

theorem openPairs_absorbAll (parts : List Contribution) : ∀ merged : Merged,
    (merged.absorbAll parts).openPairs =
      setAll merged.openPairs (ApiAtlas.openPairs (sequence parts)) := by
  induction parts with
  | nil => exact fun merged => rfl
  | cons part rest ih =>
    intro merged
    have hpart : (merged.absorb part).openPairs =
        setAll merged.openPairs (ApiAtlas.openPairs part.properties) :=
      openPairs_foldl_insert part.properties merged
    have hsequence : ApiAtlas.openPairs (sequence (part :: rest)) =
        ApiAtlas.openPairs part.properties ++ ApiAtlas.openPairs (sequence rest) :=
      List.map_append
    rw [absorbAll_cons, ih, hpart, hsequence]
    exact List.foldl_append.symm

theorem additional_absorbAll (parts : List Contribution) : ∀ merged : Merged,
    (merged.absorbAll parts).additional =
      (merged.additional || parts.any Contribution.additional) := by
  induction parts with
  | nil => simp
  | cons part rest ih =>
    intro merged
    rw [absorbAll_cons, ih, List.any_cons, ← Bool.or_assoc]
    rfl

theorem Keyed.absorbAll (parts : List Contribution) : ∀ {merged : Merged},
    merged.Keyed → (merged.absorbAll parts).Keyed := by
  induction parts with
  | nil => exact id
  | cons part rest ih =>
    intro merged h
    obtain ⟨hnamed, hnodup⟩ := Keyed.foldl_insert part.properties h
    exact ih ⟨hnamed, hnodup⟩

theorem openPairs_finish (h : merged.Keyed) :
    ApiAtlas.openPairs merged.finish = merged.openPairs := by
  rw [ApiAtlas.openPairs, finish, List.map_map]
  refine List.map_congr_left fun pair hm => ?_
  exact Prod.ext (h.named pair hm) rfl

/-- The object that is made of all that is merged collects it. -/
theorem collects_finish (parts : List Contribution) (context : Context)
    (description : Option String) :
    let merged := ({} : Merged).absorbAll parts
    (⟨context, description, merged.finish, merged.additional⟩ : ObjectModel).Collects parts := by
  intro merged
  refine ObjectModel.collects_of_openPairs ?_ (additional_absorbAll parts {})
  exact (openPairs_finish (keyed_empty.absorbAll parts)).trans (openPairs_absorbAll parts {})

end Merged

/-- No two properties have one name, if the model is an object. -/
def Model.Distinct (model : Model) : Prop :=
  ∀ object, model = .object object → (object.properties.map Property.name).Nodup

theorem Model.distinct_of_ne {model : Model} (h : ∀ object, model ≠ .object object) :
    model.Distinct :=
  fun object he => absurd he (h object)

theorem ObjectModel.collects_self {object : ObjectModel}
    (h : (object.properties.map Property.name).Nodup) : object.Collects [object.contribution] := by
  have hsequence : sequence [object.contribution] = object.properties :=
    List.append_nil object.properties
  rw [← keys_openPairs] at h
  refine collects_of_openPairs ?_ (Bool.or_false object.additional).symm
  rw [hsequence, Entries.ofPairs_of_nodup h]

namespace Arena

variable {arena : Arena} {id : ModelId} {model other : Model}

theorem fill_of_model? (h : arena.model? id = some model) : arena.fill id model = arena := by
  have hslot : arena.slots[id]? = some (some model) := Option.join_eq_some_iff.mp h
  obtain ⟨hlength, hget⟩ := List.getElem?_eq_some_iff.mp hslot
  rw [fill, ← hget, List.set_getElem_self]

theorem eq_of_model?_fill (h : (arena.fill id model).model? id = some other) : model = other := by
  simp only [model?, fill, List.getElem?_set, ↓reduceIte] at h
  split at h
  next => exact Option.some.inj h
  next => cases h

end Arena

namespace Registry

open Resolving

variable {registry : Registry} {calls : Calls} {flatten : Flatten} {trail : Trail} {schema : Schema}
  {pos : Position} {arena after : Arena} {object : ObjectModel}

theorem resolveProperties_names (parent : String) :
    (resolveProperties calls trail schema parent pos).Yields fun own =>
      own.map Property.name = Entries.keys schema.properties := by
  have hname (pair : String × SchemaNode) : (resolveProperty calls trail parent pos pair.1
      pair.2).Yields fun property => property.name = pair.1 :=
    Yields.last fun _ => Yields.pure rfl
  exact Yields.mapM_map hname schema.properties

theorem buildObject_eq : buildObject calls trail schema pos =
    (fun own => Model.object ⟨pos.context, schema.description,
      own.map fun p => { p with required := schema.required.contains p.name },
      schema.allowsAdditional? == some true⟩) <$>
        resolveProperties calls trail schema pos.pointer pos := by
  have heach : (fun (pair : String × SchemaNode) => (do
      let property ← resolveProperty calls trail pos.pointer pos pair.1 pair.2
      pure { property with required := schema.required.contains pair.1 } : Resolving Property)) =
      fun pair => (fun p : Property => { p with required := schema.required.contains p.name }) <$>
        resolveProperty calls trail pos.pointer pos pair.1 pair.2 := by
    funext pair
    simp only [resolveProperty, bind_pure_comp, Functor.map_map]
  unfold buildObject resolveProperties
  rw [heach, mapM_map]
  simp only [bind_pure_comp, Functor.map_map]

theorem buildAllOf_collects (hf : calls.Flattens flatten)
    (h : outcome (registry.buildAllOf calls trail schema pos) arena =
      (.ok (.object object), after)) :
    ∃ parts, outcome (registry.flattenSchema calls flatten trail schema pos.pointer pos) arena =
      (.ok parts, after) ∧ object.Collects parts := by
  unfold buildAllOf at h
  split at h
  next => cases h
  next =>
    rw [mergeSchema_eq_flatten hf, bind_map_left] at h
    obtain ⟨parts, middle, ho, hfinish⟩ := outcome_bind_eq_ok.mp h
    split at hfinish
    next =>
      cases hfinish
      exact ⟨parts, ho, Merged.collects_finish parts _ _⟩
    next => cases hfinish

theorem buildObject_collects (hbranches : schema.allOf = [])
    (hkeys : (Entries.keys schema.properties).Nodup)
    (h : outcome (buildObject calls trail schema pos) arena = (.ok (.object object), after)) :
    ∃ parts, outcome (registry.flattenSchema calls flatten trail schema pos.pointer pos) arena =
      (.ok parts, after) ∧ object.Collects parts := by
  rw [buildObject_eq, ← bind_pure_comp] at h
  obtain ⟨own, middle, ho, hmodel⟩ := outcome_bind_eq_ok.mp h
  cases hmodel
  have hnames := resolveProperties_names pos.pointer arena own after ho
  have hflatten : outcome (registry.flattenSchema calls flatten trail schema pos.pointer pos)
      arena = (.ok [schema.contribution own], after) := by
    unfold flattenSchema
    rw [hbranches, List.zipIdx_nil, List.mapM_nil, pure_bind, outcome_bind, ho]
    rfl
  have hnodup : (Entries.keys (openPairs own)).Nodup := by
    rw [keys_openPairs, hnames]
    exact hkeys
  have hsequence : sequence [schema.contribution own] = own := List.append_nil own
  refine ⟨_, hflatten, ObjectModel.collects_of_openPairs ?_ (Bool.or_false _).symm⟩
  rw [hsequence, Entries.ofPairs_of_nodup hnodup, openPairs, List.map_map]
  rfl

theorem branches_of_object (h : registry.form schema = .object) : schema.allOf = [] :=
  @Lookup.branches_of_form registry.lookup schema h

/-- Only schemas of two forms come to objects, and these collect what the schema is flattened to. -/
theorem buildForm_collects {several : Resolving Model} {depth : Nat}
    (hkeys : schema.allOf ≠ [] ∨ (Entries.keys schema.properties).Nodup)
    (hs : registry.form schema ≠ .several)
    (h : outcome (registry.buildForm (registry.callsWithin noCalls depth) several trail schema pos
      (registry.form schema)) arena = (.ok (.object object), after)) :
    ∃ parts, outcome (registry.flattenWithin (depth + 1) trail schema pos.pointer pos) arena =
      (.ok parts, after) ∧ object.Collects parts := by
  have hother {work : Resolving Model} (hw : work.Yields fun model => model ≠ .object object)
      (ho : outcome work arena = (.ok (.object object), after)) : False :=
    hw arena _ after ho rfl
  cases hf : registry.form schema with
  | merged =>
    rw [hf] at h
    exact buildAllOf_collects (callsWithin_flattens depth) h
  | object =>
    rw [hf] at h
    have hbranches := branches_of_object hf
    exact buildObject_collects hbranches (hkeys.resolve_left (absurd hbranches)) h
  | array =>
    rw [hf] at h
    refine (hother ?_ h).elim
    simp only [buildForm, buildArray]
    cases schema.items <;> exact Yields.last fun _ => Yields.pure (by simp)
  | map value =>
    rw [hf] at h
    refine (hother ?_ h).elim
    exact Yields.last fun _ => Yields.pure (by simp)
  | union =>
    rw [hf] at h
    refine (hother ?_ h).elim
    exact Yields.last fun _ => by split <;> exact Yields.pure (by simp)
  | several => exact absurd hf hs
  | plain =>
    rw [hf] at h
    exact (hother (Yields.lift fun _ hp => plainModel_ne_object hp object) h).elim

theorem buildTypeUnion_ne_object : (registry.buildTypeUnion calls trail schema pos).Yields
    fun model => ∀ object, model ≠ .object object :=
  Yields.last fun _ => Yields.pure nofun

/-- All models of a document have distinct properties. -/
def distinctModels (registry : Registry) (h : registry.Distinct) : Standard registry where
  fit := SchemaNode.Distinct
  meets := Model.Distinct
  component name node hn := h (name, node) (Entries.mem_of_get? hn)
  property hs := by
    cases hs with
    | inline _ properties => exact properties
  branch hs := by
    cases hs with
    | inline _ _ _ _ allOf => exact allOf
  case hs node hm := by
    cases hs with
    | inline _ _ _ _ _ oneOf anyOf =>
      unfold SchemaOf.composition at hm
      split at hm
      next => exact anyOf node hm
      next => exact oneOf node hm
  items hs := by
    cases hs with
    | inline _ _ _ items => exact items
  value hs node hn := by
    cases hs with
    | inline _ _ additional =>
      unfold SchemaOf.additionalSchema? at hn
      split at hn
      next inner he =>
        cases hn
        exact additional _ he
      next => cases hn
  type hs type := by
    cases hs with
    | inline keys properties additional items allOf oneOf anyOf =>
      exact .inline keys properties additional items allOf oneOf anyOf
  freeForm := Model.distinct_of_ne nofun
  typed _ _ _ _ _ arena model after ho :=
    Model.distinct_of_ne (buildTypeUnion_ne_object arena model after ho)
  built depth several trail schema pos hs hseveral arena model after ho := by
    cases hs with
    | inline keys =>
      by_cases hf : registry.form schema = .several
      · rw [hf] at ho
        exact hseveral arena model after ho
      · rintro object rfl
        obtain ⟨parts, -, hcollects⟩ := buildForm_collects (.inr keys) hf ho
        exact hcollects.distinct

/-- A schema that comes to an object comes to what it is flattened to. -/
theorem build_collects (hkeys : schema.allOf ≠ [] ∨ (Entries.keys schema.properties).Nodup)
    (depth : Nat) (h : outcome ((registry.callsWithin noCalls depth).build trail schema pos) arena =
      (.ok (.object object), after)) :
    ∃ parts, outcome (registry.flattenWithin depth trail schema pos.pointer pos) arena =
      (.ok parts, after) ∧ object.Collects parts := by
  cases depth with
  | zero =>
    rw [callsWithin_zero] at h
    cases h
  | succ depth =>
    rw [callsWithin_succ] at h
    simp only [step, buildSchema_eq_buildForm] at h
    by_cases hf : registry.form schema = .several
    · rw [hf] at h
      exact absurd rfl (buildTypeUnion_ne_object arena _ after h object)
    · exact buildForm_collects hkeys hf h

/-- What a node is flattened to: a reference to the object of its component, a schema to what its
parts bring. -/
def flattenNode (registry : Registry) (depth : Nat) (trail : Trail) (node : SchemaNode)
    (pos : Position) : Resolving (List Contribution) :=
  let unwrapped := node.unwrap pos.pointer
  match depth, unwrapped.node with
  | 0, _ => throw (.schemaShape "nested too deeply" pos.pointer)
  | depth + 1, .ref path => registry.flattenComponent (registry.callsWithin noCalls depth)
      (registry.flattenWithin depth) trail path unwrapped.pointer pos
  | depth + 1, .inline schema => do
    let _ ← Resolving.reserve pos.scope
    registry.flattenWithin depth trail schema unwrapped.pointer (pos.at unwrapped.pointer)

theorem resolve_collects {depth : Nat} {node : SchemaNode} {resolved : Resolved}
    (hn : node.bare.Distinct) (hd : after.Only Model.Distinct)
    (ho : outcome ((registry.callsWithin noCalls depth).resolve trail node pos) arena =
      (.ok resolved, after)) (hm : after.model? resolved.id = some (.object object)) :
    ∃ parts middle, outcome (registry.flattenNode depth trail node pos) arena =
      (.ok parts, middle) ∧ after = middle.fill resolved.id (.object object) ∧
        object.Collects parts := by
  cases depth with
  | zero =>
    rw [callsWithin_zero] at ho
    cases ho
  | succ depth =>
    rw [callsWithin_succ] at ho
    simp only [step, resolveNode, SchemaNode.unwrap_node] at ho
    simp only [flattenNode, SchemaNode.unwrap_node]
    cases hbare : node.bare with
    | ref path =>
      rw [hbare] at ho
      refine ⟨[object.contribution], after, ?_, (Arena.fill_of_model? hm).symm,
        ObjectModel.collects_self (hd _ _ hm object rfl)⟩
      simp only [flattenComponent]
      rw [outcome_bind, ho]
      simp only
      rw [outcome_get_bind]
      simp only [hm]
      rfl
    | inline schema =>
      rw [hbare] at ho hn
      -- The place that is reserved first is filled with what the build comes to.
      let reserved := (arena.reserve pos.scope).2
      let place := pos.at (node.unwrap pos.pointer).pointer
      change outcome (do
        let model ← (registry.callsWithin noCalls depth).build trail schema place
        Resolving.fill arena.slots.length model
        pure (Resolved.value arena.slots.length)) reserved = _ at ho
      obtain ⟨model, middle, hbuild, hfilled⟩ := outcome_bind_eq_ok.mp ho
      cases hfilled
      obtain rfl : model = .object object := Arena.eq_of_model?_fill hm
      have hkeys : (Entries.keys schema.properties).Nodup := by
        cases hn
        assumption
      obtain ⟨parts, hparts, hcollects⟩ := build_collects (.inr hkeys) depth hbuild
      exact ⟨parts, middle, hparts, rfl, hcollects⟩

/-- `allOf` merges in order. An object that comes of `allOf` collects what the schema is flattened
to: its branches from left to right and from the inside out, finished components with their
properties as they are, and its own properties last. Models have distinct properties whatever is
resolved, so that the same holds of every node that comes to an object, also of one that only wraps
another. -/
theorem merges_in_order (registry : Registry) (h : registry.Distinct) :
    (∀ depth trail schema pos arena object after, schema.allOf ≠ [] →
      outcome ((registry.callsWithin noCalls depth).build trail schema pos) arena =
        (.ok (.object object), after) →
      ∃ parts, outcome (registry.flattenWithin depth trail schema pos.pointer pos) arena =
        (.ok parts, after) ∧ object.Collects parts) ∧
    (registry.resolveComponents {}).2.Only Model.Distinct ∧
    ∀ depth trail node pos arena result after, SchemaNode.Distinct node →
      Arena.Only Model.Distinct arena →
      outcome ((registry.callsWithin noCalls depth).resolve trail node pos) arena =
        (result, after) →
      after.Only Model.Distinct ∧ ∀ resolved object, result = .ok resolved →
        after.model? resolved.id = some (.object object) →
        ∃ parts middle, outcome (registry.flattenNode depth trail node pos) arena =
          (.ok parts, middle) ∧ after = middle.fill resolved.id (.object object) ∧
            object.Collects parts := by
  let standard := registry.distinctModels h
  have hupheld (depth : Nat) : standard.Upheld (registry.callsWithin noCalls depth) :=
    Standard.callsWithin_upheld depth
  refine ⟨fun depth trail schema pos arena object after hbranches => build_collects (.inl hbranches)
    depth, standard.only_resolveComponents, ?_⟩
  intro depth trail node pos arena result after hnode harena ho
  have hafter : after.Only Model.Distinct :=
    standard.only_of_keeps ((hupheld depth).resolve trail node pos hnode) harena ho
  refine ⟨hafter, ?_⟩
  rintro resolved object rfl hm
  exact resolve_collects (standard.fit_bare hnode) hafter ho hm

/-- A component with a property that a schema defines once more. -/
def pets : Registry :=
  ⟨[("Pet", .inline { properties := [("name", .inline { description := some "of a pet" }),
    ("age", .inline {})] })], []⟩

/-- The schema: `name` comes with the component, again with a branch, and `tail` is its own. -/
def taggedDog : SchemaNode :=
  .inline {
    allOf := [.ref "#/components/schemas/Pet",
      .inline {
        properties := [("tag", .inline {}), ("name", .inline { description := some "of a dog" })]
        additional := some (.allowed true) }]
    properties := [("tail", .inline {})] }

theorem distinct_leaf (description : Option String) :
    (SchemaNode.inline { description }).Distinct :=
  .inline List.nodup_nil nofun nofun nofun nofun nofun nofun

theorem distinct_pets : pets.Distinct := by
  intro pair hm
  obtain rfl := List.mem_singleton.mp hm
  refine .inline (by decide) ?_ nofun nofun nofun nofun nofun
  simp [distinct_leaf]

theorem distinct_taggedDog : taggedDog.Distinct := by
  refine .inline (by decide) ?_ nofun nofun ?_ nofun nofun
  · simp [distinct_leaf]
  · simp only [List.mem_cons, List.not_mem_nil, or_false, forall_eq_or_imp, forall_eq]
    refine ⟨.ref _, .inline (by decide) ?_ nofun nofun nofun nofun nofun⟩
    simp [distinct_leaf]

/-- What the schema comes to: `age` as the component has it, `name` as the branch has it. -/
def taggedObject : ObjectModel :=
  let property (name : String) (id : ModelId) (description : Option String) : Property :=
    ⟨name, .value id, false, false, description, false, false⟩
  ⟨.named "Dog", none,
    [property "name" 5 (some "of a dog"), property "age" 3 none, property "tag" 4 none,
      property "tail" 6 none], true⟩

theorem merges_in_order_taggedDog :
    let pos : Position := ⟨.named "Dog", [], ""⟩
    let resolving := (pets.callsWithin noCalls 6).resolve {} taggedDog pos
    (outcome resolving {}).1 = .ok (.value 0) ∧
      (outcome resolving {}).2.model? 0 = some (.object taggedObject) ∧
      ∃ parts middle, outcome (pets.flattenNode 6 {} taggedDog pos) {} = (.ok parts, middle) ∧
        taggedObject.Collects parts := by
  intro pos resolving
  have hresult : (outcome resolving {}).1 = .ok (.value 0) := by decide +kernel
  have hobject : (outcome resolving {}).2.model? 0 = some (.object taggedObject) := by decide +kernel
  obtain ⟨-, -, hresolve⟩ := merges_in_order pets distinct_pets
  obtain ⟨-, hcollects⟩ := hresolve 6 {} taggedDog pos {} (outcome resolving {}).1
    (outcome resolving {}).2 distinct_taggedDog Arena.only_empty (Prod.eta _).symm
  obtain ⟨parts, middle, hparts, -, hdog⟩ := hcollects (.value 0) taggedObject hresult hobject
  exact ⟨hresult, hobject, parts, middle, hparts, hdog⟩

end Registry

/-- Whatever a document is read from, its components merge in order, and so does the schema of each
of them where it is resolved once more. -/
theorem Document.components_merge_in_order {source : Node} {document : Document}
    (hread : Document.ofNode? source = some document) (openExtensions : List String) :
    let registry : Registry := ⟨document.schemas, openExtensions⟩
    (registry.resolveComponents {}).2.Only Model.Distinct ∧
    ∀ pair ∈ document.schemas, ∀ depth trail pos arena resolved object after,
      Arena.Only Model.Distinct arena →
      Resolving.outcome ((registry.callsWithin Registry.noCalls depth).resolve trail pair.2 pos)
        arena = (.ok resolved, after) →
      after.model? resolved.id = some (.object object) →
      ∃ parts middle, Resolving.outcome (registry.flattenNode depth trail pair.2 pos) arena =
        (.ok parts, middle) ∧ after = middle.fill resolved.id (.object object) ∧
          object.Collects parts := by
  intro registry
  have hdistinct : registry.Distinct := document.distinct_of_ofNode? hread openExtensions
  let standard := registry.distinctModels hdistinct
  refine ⟨standard.only_resolveComponents, ?_⟩
  intro pair hpair depth trail pos arena resolved object after harena ho hm
  have hupheld : standard.Upheld (registry.callsWithin Registry.noCalls depth) :=
    Standard.callsWithin_upheld depth
  have hkeeps := hupheld.resolve trail pair.2 pos (hdistinct pair hpair)
  have hafter : after.Only Model.Distinct := standard.only_of_keeps hkeeps harena ho
  exact Registry.resolve_collects (standard.fit_bare (hdistinct pair hpair)) hafter ho hm

end ApiAtlas
