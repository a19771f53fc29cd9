import ApiAtlas.Proofs.DocumentSoundness
import ApiAtlas.Proofs.ResolverJudgement
import Mathlib.Data.Set.Basic

namespace ApiAtlas

/-- The names of an object's properties, each with whether it is required. -/
def ObjectModel.flags (object : ObjectModel) : List (String × Bool) :=
  object.properties.map fun property => (property.name, property.required)

/-- The object that a component has resolved to. -/
def Arena.object? (arena : Arena) (name : String) : Option ObjectModel :=
  (Entries.get? arena.memo name).bind fun id =>
    match arena.model? id with
    | some (.object object) => some object
    | _ => none

namespace Arena

variable {registry : Registry} {arena : Arena} {name : String} {object : ObjectModel}

theorem object?_eq_some_iff : arena.object? name = some object ↔
    ∃ id, Entries.get? arena.memo name = some id ∧ arena.model? id = some (.object object) := by
  unfold object?
  rw [Option.bind_eq_some_iff]
  refine exists_congr fun id => and_congr Iff.rfl ?_
  cases arena.model? id with
  | none => simp
  | some model => cases model <;> simp

/-- Where nothing is unfinished the components of an arena ask for nothing but each other. -/
theorem Judged.closed (hs : arena.Sound registry) (hj : arena.Judged registry.lookup)
    (hf : ({} : Arena).Filled arena) :
    registry.lookup.Closed fun name => Entries.has arena.memo name = true := by
  have hmet : ∀ name, Entries.has arena.memo name = true → ∃ owner schema,
      registry.lookup.Stands name owner schema ∧
        arena.Supplies registry.lookup (registry.lookup.Needs (.build schema)) := by
    intro name hn
    obtain ⟨id, hm⟩ := Entries.has_iff.mp hn
    obtain ⟨owner, schema, hstands, hplace⟩ := hj.stands name id hm
    obtain ⟨model, hmodel⟩ := Option.isSome_iff_exists.mp
      (hf id (Nat.zero_le _) (hs.lt_of_get? hm))
    exact ⟨owner, schema, hstands, (hj.settled owner schema id model hstands.owns hplace hmodel).2⟩
  refine ⟨fun name hn => ?_, fun name hn demand hd => ?_⟩
  -- Nothing unfinished is left to point back to, so what a component leads to is finite.
  · obtain ⟨owner, schema, hstands, hsupplies⟩ := hmet name hn
    exact hstands.acc (hsupplies.acc hstands.owns)
  · obtain ⟨owner, schema, hstands, hsupplies⟩ := hmet name hn
    cases hstands with
    | own owns => exact hsupplies demand (owns.needs_iff.mp hd)
    | @link _ target _ _ step _ =>
      obtain ⟨path, hpath, hneeds⟩ := step.needs_iff
      cases (hneeds demand).mp hd
      obtain ⟨id, hm⟩ := Entries.has_iff.mp hn
      have htarget := hs.aliased name id target hm step
      exact ⟨target, hpath, Entries.has_iff.mpr ⟨id, htarget⟩⟩

/-- The object of a component has what the component's text makes known. -/
theorem Judged.object_iff (hs : arena.Sound registry) (hj : arena.Judged registry.lookup)
    (hf : ({} : Arena).Filled arena) (hn : Entries.has arena.memo name = true) :
    (∃ object, arena.object? name = some object) ↔
      registry.lookup.Gives (.component name) .shaped := by
  obtain ⟨id, hm⟩ := Entries.has_iff.mp hn
  obtain ⟨owner, schema, hstands, hplace⟩ := hj.stands name id hm
  obtain ⟨model, hmodel⟩ := Option.isSome_iff_exists.mp
    (hf id (Nat.zero_le _) (hs.lt_of_get? hm))
  obtain ⟨hshows, _⟩ := hj.settled owner schema id model hstands.owns hplace hmodel
  rw [hstands.gives_iff]
  constructor
  · rintro ⟨object, ho⟩
    obtain ⟨place, hm', hobject⟩ := object?_eq_some_iff.mp ho
    cases hm.symm.trans hm'
    cases hmodel.symm.trans hobject
    exact ((hshows.has object rfl).2 .shaped).mp trivial
  · intro hg
    obtain ⟨object, rfl⟩ := hshows.shaped hg
    exact ⟨object, object?_eq_some_iff.mpr ⟨id, hm, hmodel⟩⟩

theorem Judged.mem_flags (hj : arena.Judged registry.lookup) (ho : arena.object? name = some object)
    (property : String) (required : Bool) : (property, required) ∈ object.flags ↔
      registry.lookup.Gives (.component name) (.declares property) ∧
        (required = true ↔ registry.lookup.Gives (.component name) (.asks property)) := by
  obtain ⟨id, hm, hmodel⟩ := object?_eq_some_iff.mp ho
  obtain ⟨owner, schema, hstands, hplace⟩ := hj.stands name id hm
  obtain ⟨hshows, _⟩ := hj.settled owner schema id _ hstands.owns hplace hmodel
  obtain ⟨hcoherent, hhas⟩ := hshows.has object rfl
  rw [hstands.gives_iff, hstands.gives_iff, ← hhas, ← hhas, ObjectModel.flags, List.mem_map]
  have hasks : ∀ other ∈ object.properties,
      (other.required = true ↔ object.Has (.asks other.name)) :=
    fun other hp => ⟨fun hr => ⟨other, hp, rfl, hr⟩, hcoherent other hp⟩
  constructor
  · rintro ⟨other, hp, he⟩
    cases he
    exact ⟨⟨other, hp, rfl⟩, hasks other hp⟩
  · rintro ⟨⟨other, hp, rfl⟩, hr⟩
    refine ⟨other, hp, Prod.ext rfl ?_⟩
    rw [Bool.eq_iff_iff, hasks other hp, hr]

end Arena

namespace Registry

variable {registry : Registry} {arena after : Arena} {name : String}

/-- A component is added where nothing is unfinished. -/
theorem judged_of_attempt (ho : registry.lookup.Orderly) (hr : arena.Rested registry)
    (hj : arena.Judged registry.lookup) {id : ModelId}
    (he : Resolving.attempt (registry.component name) arena = (.ok id, after)) :
    after.Judged registry.lookup := by
  have hdecides := component_decides ho name arena ⟨hr.sound, hj⟩
    fun other => Arena.not_unfinished_of_filled hr.sound hr.filled
  obtain ⟨⟨_, hjudged⟩, _⟩ :=
    (Resolving.ensures_iff.mp hdecides).1 id after (Resolving.attempt_eq_ok.mp he)
  exact hjudged

/-- A component that fails is not good. -/
theorem not_good_of_attempt (ho : registry.lookup.Orderly) (hr : arena.Rested registry)
    (hj : arena.Judged registry.lookup) {error : ResolveError}
    (he : Resolving.attempt (registry.component name) arena = (.error error, after)) :
    ¬ registry.lookup.Good name := by
  have hdecides := component_decides ho name arena ⟨hr.sound, hj⟩
    fun other => Arena.not_unfinished_of_filled hr.sound hr.filled
  obtain ⟨last, hlast⟩ := Resolving.outcome_of_attempt_error he
  exact (Resolving.ensures_iff.mp hdecides).2 error last hlast

/-- What resolving some components comes to: each of them is met or left out. -/
structure Decided (registry : Registry) (names : List String) (before after : Arena) : Prop where
  rested : after.Rested registry
  judged : after.Judged registry.lookup
  met : ∀ name, Entries.has before.memo name = true → Entries.has after.memo name = true
  failed : ∀ name ∈ before.failed, name ∈ after.failed
  blamed : ∀ name ∈ after.failed, name ∈ before.failed ∨ name ∈ names
  settled : ∀ name ∈ names, Entries.has after.memo name = true ∨ name ∈ after.failed

/-- One more component that was met before the others are resolved, or left out. -/
theorem Decided.cons {names : List String} {before between after : Arena}
    (h : registry.Decided names between after)
    (hmet : ∀ name, Entries.has before.memo name = true → Entries.has between.memo name = true)
    (hfailed : ∀ name ∈ before.failed, name ∈ between.failed)
    (hblamed : ∀ other ∈ between.failed, other ∈ before.failed ∨ other = name)
    (hsettled : Entries.has between.memo name = true ∨ name ∈ between.failed) :
    registry.Decided (name :: names) before after := by
  refine ⟨h.rested, h.judged, fun other ho => h.met other (hmet other ho),
    fun other ho => h.failed other (hfailed other ho), fun other ho => ?_, fun other ho => ?_⟩
  · rcases h.blamed other ho with hb | hn
    · rcases hblamed other hb with hbefore | rfl
      · exact .inl hbefore
      · exact .inr List.mem_cons_self
    · exact .inr (List.mem_cons_of_mem _ hn)
  · rcases List.mem_cons.mp ho with rfl | hn
    · exact hsettled.imp (h.met other) (h.failed other)
    · exact h.settled other hn

theorem Sweeps.decided {names : List String} {report : Report}
    (h : registry.Sweeps names arena report after) (ho : registry.lookup.Orderly)
    (hj : arena.Judged registry.lookup) : registry.Decided names arena after := by
  induction h with
  | done hrested =>
    exact ⟨hrested, hj, fun _ h => h, fun _ h => h, fun _ h => .inl h, fun _ h => by simp at h⟩
  | noted hm _ ih =>
    exact (ih hj).cons (fun _ h => h) (fun _ h => h) (fun _ h => .inl h) (.inl hm)
  | @kept _ _ _ _ _ _ id hrested _ he hg hid _ ih =>
    exact (ih (judged_of_attempt ho hrested hj he)).cons hg.recalls (fun _ h => hg.failed ▸ h)
      (fun _ h => .inl (hg.failed ▸ h)) (.inl (Entries.has_iff.mpr ⟨id, hid⟩))
  | @failed name _ arena _ _ _ hrested _ he _ ih =>
    have hbad := not_good_of_attempt ho hrested hj he
    have hfail : ({ arena with failed := arena.failed ++ [name] } : Arena).Judged
        registry.lookup := by
      refine ⟨hj.stands, hj.settled, fun other h => ?_⟩
      rcases List.mem_append.mp h with hold | hnew
      · exact hj.failed other hold
      · exact List.mem_singleton.mp hnew ▸ hbad
    refine (ih hfail).cons (fun _ h => h) (fun _ h => List.mem_append_left _ h)
      (fun other h => ?_) (.inr (List.mem_append_right _ List.mem_cons_self))
    exact (List.mem_append.mp h).imp id List.mem_singleton.mp

theorem resolveComponents_decided (ho : registry.lookup.Orderly) :
    registry.Decided (Entries.keys registry.schemas) {} (registry.resolveComponents {}).2 :=
  (sweeps_resolveNames _ {} (Arena.Rested.empty registry)).decided ho
    (Arena.Judged.empty registry.lookup)

theorem mem_keys_of_good (h : registry.lookup.Good name) :
    name ∈ Entries.keys registry.schemas := by
  by_contra hn
  have hmissing : registry.lookup.find name = none := by
    rw [← Entries.has_iff_mem_keys] at hn
    exact Entries.has_eq_false_iff.mp (by simpa using hn)
  exact Lookup.not_good_of_fails (Lookup.fails_never (.missing hmissing)) h

/-- Once all components of an orderly document are resolved, the good ones are there. -/
theorem has_resolveComponents (ho : registry.lookup.Orderly) (name : String) :
    Entries.has (registry.resolveComponents {}).2.memo name = true ↔ registry.lookup.Good name := by
  have hdecided := resolveComponents_decided ho
  constructor
  -- What resolved is closed under its own demands, and the good ones are the largest such set.
  · intro hn
    exact ⟨_, hdecided.judged.closed hdecided.rested.sound hdecided.rested.filled, hn⟩
  · intro hg
    rcases hdecided.settled name (mem_keys_of_good hg) with hm | hf
    · exact hm
    · exact absurd hg (hdecided.judged.failed name hf)

theorem mem_failed_resolveComponents (ho : registry.lookup.Orderly) (name : String) :
    name ∈ (registry.resolveComponents {}).2.failed ↔
      name ∈ Entries.keys registry.schemas ∧ ¬ registry.lookup.Good name := by
  have hdecided := resolveComponents_decided ho
  constructor
  · intro hf
    refine ⟨?_, hdecided.judged.failed name hf⟩
    rcases hdecided.blamed name hf with hnone | hn
    · simp at hnone
    · exact hn
  · rintro ⟨hn, hbad⟩
    rcases hdecided.settled name hn with hm | hf
    · exact absurd ((has_resolveComponents ho name).mp hm) hbad
    · exact hf

/-- The properties of the object that a component resolves to, each with whether it is required. -/
def requirements (registry : Registry) (name : String) : Option (Set (String × Bool)) :=
  ((registry.resolveComponents {}).2.object? name).map fun object => { flag | flag ∈ object.flags }

/-- What an orderly document makes of a component does not depend on how its components are
listed. -/
theorem requirements_eq_some_iff (ho : registry.lookup.Orderly) (name : String)
    (flags : Set (String × Bool)) :
    registry.requirements name = some flags ↔ registry.lookup.Good name ∧
      registry.lookup.Gives (.component name) .shaped ∧
      flags = { flag | registry.lookup.Gives (.component name) (.declares flag.1) ∧
        (flag.2 = true ↔ registry.lookup.Gives (.component name) (.asks flag.1)) } := by
  have hdecided := resolveComponents_decided ho
  have hrested := hdecided.rested
  have hflags : ∀ object, (registry.resolveComponents {}).2.object? name = some object →
      { flag | flag ∈ object.flags } =
        { flag | registry.lookup.Gives (.component name) (.declares flag.1) ∧
          (flag.2 = true ↔ registry.lookup.Gives (.component name) (.asks flag.1)) } := by
    intro object hobject
    ext ⟨property, required⟩
    exact hdecided.judged.mem_flags hobject property required
  unfold requirements
  rw [Option.map_eq_some_iff]
  constructor
  · rintro ⟨object, hobject, rfl⟩
    obtain ⟨id, hm, _⟩ := Arena.object?_eq_some_iff.mp hobject
    have hn : Entries.has (registry.resolveComponents {}).2.memo name = true :=
      Entries.has_iff.mpr ⟨id, hm⟩
    refine ⟨(has_resolveComponents ho name).mp hn, ?_, hflags object hobject⟩
    exact (hdecided.judged.object_iff hrested.sound hrested.filled hn).mp ⟨object, hobject⟩
  · rintro ⟨hg, hshaped, rfl⟩
    have hn := (has_resolveComponents ho name).mpr hg
    obtain ⟨object, hobject⟩ :=
      (hdecided.judged.object_iff hrested.sound hrested.filled hn).mpr hshaped
    exact ⟨object, hobject, hflags object hobject⟩

/-- In an orderly document the order of the components decides neither which of them resolve nor
which properties their objects have and require. -/
theorem resolveComponents_perm {schemas shuffled : Entries SchemaNode} {extensions : List String}
    (hp : schemas.Perm shuffled) (hn : (Entries.keys schemas).Nodup)
    (ho : (⟨schemas, extensions⟩ : Registry).lookup.Orderly) :
    (∀ name, name ∈ Entries.keys ((⟨schemas, extensions⟩ : Registry).resolveComponents {}).2.memo ↔
      name ∈ Entries.keys ((⟨shuffled, extensions⟩ : Registry).resolveComponents {}).2.memo) ∧
    (∀ name, name ∈ ((⟨schemas, extensions⟩ : Registry).resolveComponents {}).2.failed ↔
      name ∈ ((⟨shuffled, extensions⟩ : Registry).resolveComponents {}).2.failed) ∧
    ∀ name, (⟨schemas, extensions⟩ : Registry).requirements name =
      (⟨shuffled, extensions⟩ : Registry).requirements name := by
  -- Only by its keys does the text of a document come into what resolves.
  have hlookup : (⟨shuffled, extensions⟩ : Registry).lookup =
      (⟨schemas, extensions⟩ : Registry).lookup := by
    simp only [Registry.lookup, Lookup.mk.injEq, and_true]
    funext name
    exact (Entries.get?_perm hp hn name).symm
  have ho' : (⟨shuffled, extensions⟩ : Registry).lookup.Orderly := hlookup ▸ ho
  refine ⟨fun name => ?_, fun name => ?_, fun name => Option.ext fun flags => ?_⟩
  · rw [← Entries.has_iff_mem_keys, ← Entries.has_iff_mem_keys, has_resolveComponents ho,
      has_resolveComponents ho', hlookup]
  · have hkeys : name ∈ Entries.keys schemas ↔ name ∈ Entries.keys shuffled :=
      (hp.map Prod.fst).mem_iff
    rw [mem_failed_resolveComponents ho, mem_failed_resolveComponents ho', hlookup, hkeys]
  · rw [requirements_eq_some_iff ho, requirements_eq_some_iff ho', hlookup]

/-- Pets, whose friends are dogs. -/
def pet : Schema where
  types := some (.single .object)
  properties := [("friend", .ref "#/components/schemas/Dog")]
  required := ["friend"]

/-- Dogs, which are pets that bark. -/
def dog : Schema where
  allOf := [.ref "#/components/schemas/Pet", .inline {
    types := some (.single .object)
    properties := [("bark", .inline { types := some (.single .string) })] }]

/-- Some kind of pets and the dogs among them. -/
def kennel (pet : Schema) : Entries SchemaNode := [("Pet", .inline pet), ("Dog", .inline dog)]

theorem plain_pet : (⟨kennel pet, []⟩ : Registry).lookup.Plain "Pet" := by
  refine ⟨"Pet", pet, .here rfl, rfl, rfl, fun property h => ?_⟩
  rcases Lookup.gives_merge.mp h with ⟨node, hm, _⟩ | hwrites
  · cases hm
  · have hfriend : property = "friend" := List.mem_singleton.mp hwrites
    exact .written (hfriend ▸ List.mem_cons_self)

/-- Dogs extend pets, and nothing else is extended. -/
theorem kennel_orderly : (⟨kennel pet, []⟩ : Registry).lookup.Orderly := by
  rintro above name ⟨path, hd, hn⟩ _
  cases hd with
  | body found inner =>
    have hm := Entries.mem_of_get? found
    simp only [kennel, List.mem_cons, Prod.mk.injEq, List.not_mem_nil, or_false] at hm
    rcases hm with ⟨rfl, rfl⟩ | ⟨rfl, rfl⟩
    · have hform : (⟨kennel pet, []⟩ : Registry).lookup.form pet = .object := rfl
      rw [Lookup.needs_resolve_inline (SchemaNode.bare_inline rfl), Lookup.needs_build,
        hform] at inner
      obtain ⟨pair, hp, hinner⟩ := inner
      rw [List.mem_singleton.mp hp, Lookup.needs_resolve_ref (SchemaNode.bare_ref _)] at hinner
      cases hinner
    · have hform : (⟨kennel pet, []⟩ : Registry).lookup.form dog = .merged := rfl
      rw [Lookup.needs_resolve_inline (SchemaNode.bare_inline rfl), Lookup.needs_build,
        hform] at inner
      rcases inner with ⟨hbad, _⟩ | hmerge
      · cases hbad
      · rcases Lookup.needs_merge.mp hmerge with ⟨node, hnode, hbranch⟩ | ⟨pair, hp, _⟩
        · rcases List.mem_cons.mp hnode with rfl | hnode
          · cases Lookup.needs_branch_ref.mp hbranch
            have hname : Section.schemas.named? "#/components/schemas/Pet" = some "Pet" := rfl
            exact Option.some.inj (hname.symm.trans hn) ▸ plain_pet
          · rw [List.mem_singleton.mp hnode, Lookup.needs_branch_inline rfl rfl,
              Lookup.needs_merge] at hbranch
            rcases hbranch with ⟨_, hnone, _⟩ | ⟨pair, hp, hinner⟩
            · cases hnone
            · rw [List.mem_singleton.mp hp,
                Lookup.needs_resolve_inline (SchemaNode.bare_inline rfl)] at hinner
              have hplain : (⟨kennel pet, []⟩ : Registry).lookup.form
                  { types := some (.single .string) } = .plain := rfl
              rw [Lookup.needs_build, hplain] at hinner
              cases hinner.1
        · cases hp

theorem resolveComponents_perm_kennel :
    (kennel pet).Perm (kennel pet).reverse ∧ (Entries.keys (kennel pet)).Nodup ∧
      (⟨kennel pet, []⟩ : Registry).lookup.Orderly ∧
      "Dog" ∈ Entries.keys ((⟨kennel pet, []⟩ : Registry).resolveComponents {}).2.memo ∧
      "Dog" ∈ Entries.keys ((⟨(kennel pet).reverse, []⟩ : Registry).resolveComponents {}).2.memo ∧
      (⟨kennel pet, []⟩ : Registry).requirements "Dog" =
        (⟨(kennel pet).reverse, []⟩ : Registry).requirements "Dog" := by
  have hp : (kennel pet).Perm (kennel pet).reverse := (List.reverse_perm _).symm
  have hn : (Entries.keys (kennel pet)).Nodup := by decide
  have hperm := resolveComponents_perm hp hn kennel_orderly
  have hdog : "Dog" ∈ Entries.keys ((⟨kennel pet, []⟩ : Registry).resolveComponents {}).2.memo := by
    decide +kernel
  exact ⟨hp, hn, kennel_orderly, hdog, (hperm.1 "Dog").mp hdog, hperm.2.2 "Dog"⟩

/-- Pets with any number of other texts: they cannot be part of an object as they are written. -/
def mapPet : Schema := { pet with
  additional := some (.each (.inline { types := some (.single .string) })) }

/-- Pets that have to bark, though it is dogs that do. -/
def loudPet : Schema := { pet with required := ["friend", "bark"] }

/-- Pets that have to have a friend only where they wrap what has one. -/
def wrappedPet : Schema where
  allOf := [.inline { pet with required := [] }]
  required := ["friend"]

/-- Where pets are not plain, be it for one reason alone, the order decides. -/
theorem resolveComponents_kennel_order :
    (∀ pet, (kennel pet).Perm (kennel pet).reverse) ∧
      (∀ pet, (Entries.keys (kennel pet)).Nodup) ∧
      Entries.keys ((⟨kennel mapPet, []⟩ : Registry).resolveComponents {}).2.memo = [] ∧
      ((⟨kennel mapPet, []⟩ : Registry).resolveComponents {}).2.failed = ["Pet", "Dog"] ∧
      Entries.keys ((⟨(kennel mapPet).reverse, []⟩ : Registry).resolveComponents {}).2.memo =
        ["Dog", "Pet"] ∧
      ((⟨(kennel mapPet).reverse, []⟩ : Registry).resolveComponents {}).2.failed = [] ∧
      (((⟨kennel loudPet, []⟩ : Registry).resolveComponents {}).2.object? "Dog").map
        ObjectModel.flags = some [("friend", true), ("bark", true)] ∧
      (((⟨(kennel loudPet).reverse, []⟩ : Registry).resolveComponents {}).2.object? "Dog").map
        ObjectModel.flags = some [("friend", true), ("bark", false)] ∧
      (((⟨kennel wrappedPet, []⟩ : Registry).resolveComponents {}).2.object? "Dog").map
        ObjectModel.flags = some [("friend", true), ("bark", false)] ∧
      (((⟨(kennel wrappedPet).reverse, []⟩ : Registry).resolveComponents {}).2.object? "Dog").map
        ObjectModel.flags = some [("friend", false), ("bark", false)] := by
  refine ⟨fun pet => (List.reverse_perm _).symm, fun pet => ?_, ?_, ?_, ?_, ?_, ?_, ?_, ?_, ?_⟩
  · change ["Pet", "Dog"].Nodup
    decide
  all_goals decide +kernel

end Registry

end ApiAtlas
