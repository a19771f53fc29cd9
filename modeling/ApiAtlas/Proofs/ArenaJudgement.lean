import ApiAtlas.Proofs.ObjectFacts
import ApiAtlas.Proofs.ResolutionDepth

namespace ApiAtlas

open Relation

namespace Arena

/-- The components of an arena meet a demand. -/
def Meets (lookup : Lookup) (arena : Arena) (demand : Demand) : Prop :=
  lookup.MetBy (fun name => Entries.has arena.memo name = true) demand

/-- The components of an arena meet all that work asks for. -/
def Supplies (lookup : Lookup) (arena : Arena) (needs : Demand → Prop) : Prop :=
  ∀ demand, needs demand → arena.Meets lookup demand

/-- A component with a schema of its own that is met and not built yet. -/
def Unfinished (lookup : Lookup) (arena : Arena) (name : String) : Prop :=
  ∃ schema id, lookup.Own name schema ∧ Entries.get? arena.memo name = some id ∧
    arena.model? id = none

/-- What an arena says of components is true of the document. -/
structure Judged (lookup : Lookup) (arena : Arena) : Prop where
  stands : ∀ name id, Entries.get? arena.memo name = some id → ∃ owner schema,
    lookup.Stands name owner schema ∧ Entries.get? arena.memo owner = some id
  settled : ∀ owner schema id model, lookup.Own owner schema →
    Entries.get? arena.memo owner = some id → arena.model? id = some model →
      model.Shows lookup schema ∧ arena.Supplies lookup (lookup.Needs (.build schema))
  failed : ∀ name ∈ arena.failed, ¬ lookup.Good name

/-- Work leaves no component unfinished that it did not find so. -/
def Closes (lookup : Lookup) (before after : Arena) : Prop :=
  ∀ owner schema id, lookup.Own owner schema → Entries.get? after.memo owner = some id →
    after.model? id = none → Entries.get? before.memo owner = some id

variable {lookup : Lookup} {registry : Registry} {arena before after : Arena} {id : Nat}
  {model : Model} {name target : String} {schema : Schema} {scope : List String}
  {demand : Demand} {needs : Demand → Prop}

theorem Supplies.grows (hg : before.Grows after) (h : before.Supplies lookup needs) :
    after.Supplies lookup needs := by
  refine fun demand hd => (h demand hd).mono fun name hn => ?_
  obtain ⟨id, hi⟩ := Entries.has_iff.mp hn
  exact Entries.has_iff.mpr ⟨id, hg.memo_get? hi⟩

/-- A component whose demands are met does not go on without end. -/
theorem Supplies.acc (h : arena.Supplies lookup (lookup.Needs (.build schema)))
    (ho : lookup.Own name schema) : Acc lookup.Under name := by
  refine ho.acc fun below hb => ?_
  obtain ⟨path, hd, hn⟩ := hb
  obtain ⟨other, ho', _, _, hacc⟩ := h _ hd
  exact Option.some.inj (ho'.symm.trans hn) ▸ hacc

theorem Closes.refl (arena : Arena) : arena.Closes lookup arena := fun _ _ _ _ h _ => h

theorem Closes.trans {first second third : Arena} (h : first.Closes lookup second)
    (hg : second.Grows third) (h' : second.Closes lookup third) : first.Closes lookup third := by
  intro owner schema id ho hm hn
  refine h owner schema id ho (h' owner schema id ho hm hn) ?_
  cases hs : second.model? id with
  | none => rfl
  | some model =>
    rw [hg.model? hs] at hn
    cases hn

/-- A component that is unfinished when a place has been filled is at another place. -/
theorem Closes.of_fill {place : Nat} (h : before.Closes lookup after) (hi : id < after.slots.length)
    (ho : lookup.Own name schema) (hm : Entries.get? after.memo name = some place)
    (hn : (after.fill id model).model? place = none) :
    id ≠ place ∧ Entries.get? before.memo name = some place := by
  rw [model?_fill hi] at hn
  split at hn
  next => cases hn
  next hne => exact ⟨hne, h name schema place ho hm hn⟩

theorem Unfinished.of_closes (hg : before.Grows after) (hc : before.Closes lookup after)
    (h : after.Unfinished lookup name) : before.Unfinished lookup name := by
  obtain ⟨schema, id, ho, hm, hn⟩ := h
  refine ⟨schema, id, ho, hc name schema id ho hm hn, ?_⟩
  cases hb : before.model? id with
  | none => rfl
  | some model =>
    rw [hg.model? hb] at hn
    cases hn

theorem Judged.empty (lookup : Lookup) : ({} : Arena).Judged lookup :=
  ⟨fun _ _ h => by simp at h, fun _ _ _ _ _ h => by simp at h, fun _ h => by simp at h⟩

theorem Judged.reserve (h : arena.Judged lookup) (scope : List String) :
    (arena.reserve scope).2.Judged lookup := by
  refine ⟨h.stands, fun owner schema id model ho hm hmodel => ?_, h.failed⟩
  rw [model?_reserve] at hmodel
  exact h.settled owner schema id model ho hm hmodel

theorem unfinished_reserve : (arena.reserve scope).2.Unfinished lookup name ↔
    arena.Unfinished lookup name := by
  unfold Unfinished
  simp only [model?_reserve]
  rfl

/-- Each name that is noted stands for a component that is noted at the same place. -/
def Placed (lookup : Lookup) (arena : Arena) : Prop :=
  ∀ name id, Entries.get? arena.memo name = some id → ∃ owner schema,
    lookup.Stands name owner schema ∧ Entries.get? arena.memo owner = some id

theorem Placed.remember_own (h : arena.Placed lookup)
    (hg : arena.Grows (arena.remember name id)) (ho : lookup.Own name schema) :
    (arena.remember name id).Placed lookup := by
  intro other place hother
  rcases cases_of_get?_remember hother with ⟨rfl, rfl⟩ | hold
  · exact ⟨name, schema, .own ho, Entries.get?_set_self⟩
  · obtain ⟨owner, own, hstands, howner⟩ := h other place hold
    exact ⟨owner, own, hstands, hg.memo_get? howner⟩

theorem Placed.remember_alias (h : arena.Placed lookup)
    (hg : arena.Grows (arena.remember name id)) (ha : lookup.Alias name target)
    (ht : Entries.get? arena.memo target = some id) : (arena.remember name id).Placed lookup := by
  intro other place hother
  rcases cases_of_get?_remember hother with ⟨rfl, rfl⟩ | hold
  · obtain ⟨owner, own, hstands, howner⟩ := h target id ht
    exact ⟨owner, own, .link ha hstands, hg.memo_get? howner⟩
  · obtain ⟨owner, own, hstands, howner⟩ := h other place hold
    exact ⟨owner, own, hstands, hg.memo_get? howner⟩

/-- A component with a model was noted before a place without a model was. -/
theorem get?_of_remember_empty {owner : String} {place : Nat} {built : Model}
    (hm : arena.model? id = none)
    (hplace : Entries.get? (arena.remember name id).memo owner = some place)
    (hmodel : (arena.remember name id).model? place = some built) :
    Entries.get? arena.memo owner = some place := by
  rcases cases_of_get?_remember hplace with ⟨-, rfl⟩ | hold
  · cases hm.symm.trans hmodel
  · exact hold

/-- A component is noted whose model is still to come. -/
theorem Judged.remember_own (h : arena.Judged lookup) (hn : Entries.get? arena.memo name = none)
    (hf : name ∉ arena.failed) (ho : lookup.Own name schema) (hm : arena.model? id = none) :
    (arena.remember name id).Judged lookup := by
  have hg : arena.Grows (arena.remember name id) := grows_remember hn hf
  refine ⟨Placed.remember_own h.stands hg ho, fun owner own place model hown hplace hmodel => ?_,
    h.failed⟩
  obtain ⟨hshows, hsupplies⟩ :=
    h.settled owner own place model hown (get?_of_remember_empty hm hplace hmodel) hmodel
  exact ⟨hshows, hsupplies.grows hg⟩

/-- Another name is noted for a component that is noted already. -/
theorem Judged.remember_alias (h : arena.Judged lookup)
    (hg : arena.Grows (arena.remember name id)) (ha : lookup.Alias name target)
    (ht : Entries.get? arena.memo target = some id) : (arena.remember name id).Judged lookup := by
  refine ⟨Placed.remember_alias h.stands hg ha ht,
    fun owner own place model hown hplace hmodel => ?_, h.failed⟩
  have hne : name ≠ owner := fun he => (he ▸ hown).not_alias ha
  rw [remember, Entries.get?_set_of_ne hne] at hplace
  obtain ⟨hshows, hsupplies⟩ := h.settled owner own place model hown hplace hmodel
  exact ⟨hshows, hsupplies.grows hg⟩

theorem closes_remember_alias (ha : lookup.Alias name target) :
    arena.Closes lookup (arena.remember name id) := by
  intro owner own place hown hplace _
  have hne : name ≠ owner := fun he => (he ▸ hown).not_alias ha
  rwa [remember, Entries.get?_set_of_ne hne] at hplace

/-- A model is put at its place, where it is what each component at that place makes known. -/
theorem Judged.fill (h : arena.Judged lookup) (hi : id < arena.slots.length)
    (ho : ∀ owner schema, lookup.Own owner schema → Entries.get? arena.memo owner = some id →
      model.Shows lookup schema ∧ arena.Supplies lookup (lookup.Needs (.build schema))) :
    (arena.fill id model).Judged lookup := by
  refine ⟨h.stands, fun owner schema place built hown hplace hmodel => ?_, h.failed⟩
  rcases cases_of_model?_fill hi hmodel with ⟨rfl, rfl⟩ | hold
  · exact ho owner schema hown hplace
  · exact h.settled owner schema place built hown hplace hold

/-- A place that is made for a part of a component is given to none. -/
theorem Closes.vacant {owner : String} (hg : (arena.reserve scope).2.Grows after)
    (hc : (arena.reserve scope).2.Closes lookup after) (hs : arena.Sound registry)
    (ho : lookup.Own owner schema) : Entries.get? after.memo owner ≠ some arena.slots.length :=
  fun hplace => Nat.lt_irrefl _
    (hs.lt_of_get? (hc owner schema _ ho hplace (hg.reserved rfl).2))

section

variable {owner : String}
  (hg : ((arena.reserve scope).2.remember name arena.slots.length).Grows after)
  (hc : ((arena.reserve scope).2.remember name arena.slots.length).Closes lookup after)

include hg hc

/-- The place that is made for a component is given to that component alone. -/
theorem Closes.owner_eq (hs : arena.Sound registry) (ho : lookup.Own owner schema)
    (hplace : Entries.get? after.memo owner = some arena.slots.length) : owner = name := by
  rcases get?_remember (hc owner schema _ ho hplace (hg.reserved rfl).2) with rfl | hold
  · rfl
  · exact absurd (hs.lt_of_get? hold) (Nat.lt_irrefl _)

/-- Once its model is put at its place, a component is not left unfinished. -/
theorem Closes.built : arena.Closes lookup (after.fill arena.slots.length model) := by
  intro owner own id hown hplace hmodel
  obtain ⟨hne, hbefore⟩ := hc.of_fill (hg.reserved rfl).1 hown hplace hmodel
  rcases get?_remember hbefore with rfl | hold
  · have hplace' : Entries.get? after.memo name = some arena.slots.length :=
      hg.memo_get? Entries.get?_set_self
    exact absurd (Option.some.inj (hplace'.symm.trans hplace)) hne
  · exact hold

end

/-- An arena between two units of work has nothing unfinished. -/
theorem not_unfinished_of_filled (hs : arena.Sound registry) (hf : ({} : Arena).Filled arena) :
    ¬ arena.Unfinished lookup name := by
  rintro ⟨schema, id, _, hm, hn⟩
  have hsome := hf id (Nat.zero_le _) (hs.lt_of_get? hm)
  rw [hn] at hsome
  cases hsome

end Arena

/-- Work keeps what an arena says true; when it fails, `fails` holds. -/
def deciding (registry : Registry) (fails : Prop) : Regime where
  holds arena := arena.Sound registry ∧ arena.Judged registry.lookup
  leads before after := before.Grows after ∧ before.Filled after ∧
    before.Closes registry.lookup after
  fails _ _ := fails
  refl arena := ⟨Arena.Grows.refl arena, Arena.Filled.refl arena, Arena.Closes.refl arena⟩
  trans h h' := ⟨h.1.trans h'.1, h.2.1.trans h'.1 h'.2.1, h.2.2.trans h'.1 h'.2.2⟩
  fails_after _ h := h

/-- Work keeps what an arena says true, and fails only where some demand cannot be met. -/
abbrev Registry.meeting (registry : Registry) (needs : Demand → Prop) : Regime :=
  deciding registry (registry.lookup.Fails needs)

/-- Work stands inside of a component that asks for all that the work asks for. -/
structure Inside (registry : Registry) (limit : Nat) (trail : Trail) (top : String)
    (needs : Demand → Prop) (weight : Nat) (arena : Arena) : Prop where
  room : registry.depth arena trail + weight ≤ limit
  asked : ∀ demand, needs demand → registry.lookup.Needs (.component top) demand
  followed : trail.aliases = []
  inherited : ∀ name ∈ trail.inheriting, ReflTransGen registry.lookup.Under top name
  reached : ∀ name, arena.Unfinished registry.lookup name →
    ReflTransGen registry.lookup.Leads name top

/-- Work stands before a component. -/
structure Before (registry : Registry) (limit : Nat) (trail : Trail) (name : String) (weight : Nat)
    (arena : Arena) : Prop where
  room : registry.depth arena trail + weight ≤ limit
  followed : ∀ other ∈ trail.aliases, TransGen registry.lookup.Alias other name
  reached : ∀ other, arena.Unfinished registry.lookup other →
    ReflTransGen registry.lookup.Leads other name

section

variable {registry : Registry} {limit limit' weight smaller : Nat} {trail : Trail} {top name : String}
  {needs fewer : Demand → Prop} {before after arena : Arena} {fails wider : Prop} {α : Type}
  {work : Resolving α} {p : Arena → Prop} {q : α → Arena → Prop}

theorem Inside.leads (hl : (deciding registry fails).leads before after)
    (h : Inside registry limit trail top needs weight before) :
    Inside registry limit trail top needs weight after := by
  refine ⟨?_, h.asked, h.followed, h.inherited, fun name hn =>
    h.reached name (hn.of_closes hl.1 hl.2.2)⟩
  refine Nat.le_trans (Nat.add_le_add_right (Registry.depth_mono fun name hn => ?_) _) h.room
  obtain ⟨id, hi⟩ := Entries.has_iff.mp hn
  exact Entries.has_iff.mpr ⟨id, hl.1.memo_get? hi⟩

/-- Part of the work stands inside of the same component. -/
theorem Inside.part (h : Inside registry limit trail top needs weight arena)
    (hn : ∀ demand, fewer demand → needs demand) (hw : smaller + limit ≤ weight + limit') :
    Inside registry limit' trail top fewer smaller arena := by
  have hroom := h.room
  exact ⟨by omega, fun demand hd => h.asked demand (hn demand hd), h.followed, h.inherited, h.reached⟩

theorem Inside.reserve (h : Inside registry limit trail top needs weight arena)
    (scope : List String) :
    Inside registry limit trail top needs weight (arena.reserve scope).2 :=
  ⟨h.room, h.asked, h.followed, h.inherited, fun name hn =>
    h.reached name (Arena.unfinished_reserve.mp hn)⟩

/-- What the work asks for comes after all that is unfinished. -/
theorem Inside.stands_before (h : Inside registry limit trail top needs weight arena)
    (hn : Lookup.Names needs name) (hw : smaller ≤ weight) :
    Before registry limit trail name smaller arena := by
  have hroom := h.room
  refine ⟨by omega, fun other ho => ?_, fun other ho => ?_⟩
  · rw [h.followed] at ho
    simp at ho
  · exact (h.reached other ho).tail (Lookup.Names.mono h.asked hn)

theorem decides_mono (h : (deciding registry fails).Runs p work q) (hf : fails → wider) :
    (deciding registry wider).Runs p work q :=
  fun arena hh hp => (h arena hh hp).weaken (fun _ _ hq => hq) fun _ hl => hf hl

end

end ApiAtlas
