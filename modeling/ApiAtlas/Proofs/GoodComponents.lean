import ApiAtlas.Proofs.Demands
import Mathlib.Logic.Relation

namespace ApiAtlas

theorem not_transGen_of_acc {α : Type} {r : α → α → Prop} {a : α} (h : Acc r a) :
    ¬ Relation.TransGen r a a := by
  have hself : ∀ b, Acc (Relation.TransGen r) b → ¬ Relation.TransGen r b b := by
    intro b hb
    induction hb with
    | intro b _ ih => exact fun hbb => ih b hbb hbb
  exact hself a h.transGen

namespace Lookup

variable (lookup : Lookup)

/-- A component that is another name. -/
def Alias (name target : String) : Prop :=
  ∃ body path, lookup.find name = some body ∧ body.bare = .ref path ∧
    Section.schemas.named? path = some target

/-- A component with a schema of its own. -/
def Own (name : String) (schema : Schema) : Prop :=
  ∃ body, lookup.find name = some body ∧ body.bare = .inline schema

/-- Work asks for the properties of a component. -/
def Extends (needs : Demand → Prop) (name : String) : Prop :=
  ∃ path, needs (.extend path) ∧ Section.schemas.named? path = some name

/-- Work asks for a component. -/
def Names (needs : Demand → Prop) (name : String) : Prop :=
  ∃ path, (needs (.refer path) ∨ needs (.extend path)) ∧ Section.schemas.named? path = some name

/-- One component cannot be had without all of another. -/
def Under (below above : String) : Prop :=
  lookup.Alias above below ∨ Extends (lookup.Needs (.component above)) below

/-- One component leads to another. -/
def Leads (above below : String) : Prop := Names (lookup.Needs (.component above)) below

/-- A component can be merged into an object. -/
def Extensible (name : String) : Prop :=
  lookup.Gives (.component name) .shaped ∨ lookup.Free (.component name)

/-- A demand that components among some meet. -/
def MetBy (among : String → Prop) : Demand → Prop
  | .refer path => ∃ name, Section.schemas.named? path = some name ∧ among name
  | .extend path => ∃ name, Section.schemas.named? path = some name ∧ among name ∧
      lookup.Extensible name ∧ Acc lookup.Under name
  | .never => False

/-- Components that ask for nothing but each other, and for whole components without end. -/
structure Closed (among : String → Prop) : Prop where
  founded : ∀ name, among name → Acc lookup.Under name
  met : ∀ name, among name → ∀ demand, lookup.Needs (.component name) demand →
    lookup.MetBy among demand

/-- The component can be resolved. -/
def Good (name : String) : Prop := ∃ among, lookup.Closed among ∧ among name

/-- Some demand of work cannot be met. -/
def Fails (needs : Demand → Prop) : Prop :=
  ∃ demand, needs demand ∧ ¬ lookup.MetBy lookup.Good demand

/-- The component that a name stands for through other names. -/
inductive Stands : String → String → Schema → Prop
  | own {name : String} {schema : Schema} (owns : lookup.Own name schema) : Stands name name schema
  | link {name target owner : String} {schema : Schema} (step : lookup.Alias name target)
    (rest : Stands target owner schema) : Stands name owner schema

/-- The text that is found behind a name when only references are followed. -/
inductive WrittenAs : String → String → Schema → Prop
  | here {name : String} {schema : Schema} (found : lookup.find name = some (.inline schema)) :
    WrittenAs name name schema
  | next {name path target owner : String} {schema : Schema}
    (found : lookup.find name = some (.ref path))
    (named : Section.schemas.named? path = some target) (rest : WrittenAs target owner schema) :
    WrittenAs name owner schema

/-- Behind a name stands in its own words what can be part of an object: no wrapper, nothing beside
what makes up an object, and no property required that is not there. -/
def Plain (name : String) : Prop :=
  ∃ owner schema, lookup.WrittenAs name owner schema ∧ schema.peel? = none ∧
    schema.isObjectCompatible = true ∧
    ∀ property, lookup.Gives (.merge schema) (.asks property) →
      lookup.Gives (.merge schema) (.declares property)

/-- A component that is extended by one that it leads to is plain. -/
def Orderly : Prop :=
  ∀ above name, Extends (lookup.Needs (.component above)) name →
    Relation.ReflTransGen lookup.Leads name above → lookup.Plain name

variable {lookup} {name target owner path : String} {schema other : Schema} {demand : Demand}
  {fact : Fact} {needs wider : Demand → Prop} {among larger : String → Prop}

theorem Alias.unique {target' : String} (h : lookup.Alias name target)
    (h' : lookup.Alias name target') : target = target' := by
  obtain ⟨body, path, hb, hp, ht⟩ := h
  obtain ⟨body', path', hb', hp', ht'⟩ := h'
  cases Option.some.inj (hb.symm.trans hb')
  cases hp.symm.trans hp'
  exact Option.some.inj (ht.symm.trans ht')

theorem Own.unique (h : lookup.Own name schema) (h' : lookup.Own name other) : schema = other := by
  obtain ⟨body, hb, hi⟩ := h
  obtain ⟨body', hb', hi'⟩ := h'
  cases Option.some.inj (hb.symm.trans hb')
  exact SchemaNode.inline.inj (hi.symm.trans hi')

theorem Own.not_alias (h : lookup.Own name schema) : ¬ lookup.Alias name target := by
  obtain ⟨body, hb, hi⟩ := h
  rintro ⟨body', path, hb', hp, _⟩
  cases Option.some.inj (hb.symm.trans hb')
  cases hi.symm.trans hp

theorem Own.needs_iff (h : lookup.Own name schema) :
    lookup.Needs (.component name) demand ↔ lookup.Needs (.build schema) demand := by
  obtain ⟨body, hb, hi⟩ := h
  rw [needs_component hb, needs_resolve_inline hi]

theorem Own.gives_iff (h : lookup.Own name schema) :
    lookup.Gives (.component name) fact ↔ lookup.Gives (.build schema) fact := by
  obtain ⟨body, hb, hi⟩ := h
  rw [gives_component hb, gives_resolve_inline hi]

theorem Own.free_iff (h : lookup.Own name schema) :
    lookup.Free (.component name) ↔ lookup.Free (.build schema) := by
  obtain ⟨body, hb, hi⟩ := h
  rw [free_component hb, free_resolve_inline hi]

theorem Alias.needs_iff (h : lookup.Alias name target) : ∃ path,
    Section.schemas.named? path = some target ∧
      ∀ demand, lookup.Needs (.component name) demand ↔ demand = .refer path := by
  obtain ⟨body, path, hb, hp, ht⟩ := h
  exact ⟨path, ht, fun demand => by rw [needs_component hb, needs_resolve_ref hp]⟩

theorem Alias.gives_iff (h : lookup.Alias name target) :
    lookup.Gives (.component name) fact ↔ lookup.Gives (.component target) fact := by
  obtain ⟨body, path, hb, hp, ht⟩ := h
  rw [gives_component hb, gives_resolve_ref hp ht]

theorem Alias.free_iff (h : lookup.Alias name target) :
    lookup.Free (.component name) ↔ lookup.Free (.component target) := by
  obtain ⟨body, path, hb, hp, ht⟩ := h
  rw [free_component hb, free_resolve_ref hp ht]

theorem Alias.leads (h : lookup.Alias name target) : lookup.Leads name target := by
  obtain ⟨path, ht, hn⟩ := h.needs_iff
  exact ⟨path, .inl ((hn _).mpr rfl), ht⟩

theorem Names.of_extends (h : Extends needs name) : Names needs name := by
  obtain ⟨path, hd, hn⟩ := h
  exact ⟨path, .inr hd, hn⟩

theorem Names.mono (hs : ∀ demand, needs demand → wider demand) (h : Names needs name) :
    Names wider name := by
  obtain ⟨path, hd, hn⟩ := h
  exact ⟨path, hd.imp (hs _) (hs _), hn⟩

theorem Extends.mono (hs : ∀ demand, needs demand → wider demand) (h : Extends needs name) :
    Extends wider name := by
  obtain ⟨path, hd, hn⟩ := h
  exact ⟨path, hs _ hd, hn⟩

/-- Nothing that a name stands for goes on without end if what it stands for next does not. -/
theorem Alias.acc (h : lookup.Alias name target) (ht : Acc lookup.Under target) :
    Acc lookup.Under name := by
  obtain ⟨path, _, hn⟩ := h.needs_iff
  refine .intro name fun below hb => ?_
  rcases hb with ha | ⟨other, hd, _⟩
  · exact h.unique ha ▸ ht
  · cases (hn _).mp hd

theorem Own.acc (h : lookup.Own name schema)
    (he : ∀ below, Extends (lookup.Needs (.build schema)) below → Acc lookup.Under below) :
    Acc lookup.Under name := by
  refine .intro name fun below hb => ?_
  rcases hb with ha | hd
  · exact absurd ha h.not_alias
  · exact he below (Extends.mono (fun _ => h.needs_iff.mp) hd)

namespace Stands

theorem gives_iff (h : lookup.Stands name owner schema) :
    lookup.Gives (.component name) fact ↔ lookup.Gives (.build schema) fact := by
  induction h with
  | own owns => exact owns.gives_iff
  | link step _ ih => rw [step.gives_iff, ih]

theorem free_iff (h : lookup.Stands name owner schema) :
    lookup.Free (.component name) ↔ lookup.Free (.build schema) := by
  induction h with
  | own owns => exact owns.free_iff
  | link step _ ih => rw [step.free_iff, ih]

theorem owns (h : lookup.Stands name owner schema) : lookup.Own owner schema := by
  induction h with
  | own owns => exact owns
  | link _ _ ih => exact ih

theorem unique {owner' : String} (h : lookup.Stands name owner schema)
    (h' : lookup.Stands name owner' other) : owner = owner' ∧ schema = other := by
  induction h with
  | own owns =>
    cases h' with
    | own owns' => exact ⟨rfl, owns.unique owns'⟩
    | link step => exact absurd step owns.not_alias
  | link step _ ih =>
    cases h' with
    | own owns => exact absurd step owns.not_alias
    | link step' rest => exact ih (step.unique step' ▸ rest)

theorem acc (h : lookup.Stands name owner schema) (ho : Acc lookup.Under owner) :
    Acc lookup.Under name := by
  induction h with
  | own => exact ho
  | link step _ ih => exact step.acc (ih ho)

theorem leads (h : lookup.Stands name owner schema) :
    Relation.ReflTransGen lookup.Leads name owner := by
  induction h with
  | own => exact .refl
  | link step _ ih => exact .head step.leads ih

theorem under (h : lookup.Stands name owner schema) :
    Relation.ReflTransGen lookup.Under owner name := by
  induction h with
  | own => exact .refl
  | link step _ ih => exact ih.tail (.inl step)

/-- Names that stand for something do not stand for each other. -/
theorem not_alias_self (h : lookup.Stands name owner schema) :
    ¬ Relation.TransGen lookup.Alias name name := by
  have hacc : Acc (fun below above => lookup.Alias above below) name := by
    induction h with
    | own owns => exact .intro _ fun below hb => absurd hb owns.not_alias
    | link step _ ih => exact .intro _ fun below hb => step.unique hb ▸ ih
  exact fun hs => not_transGen_of_acc hacc (Relation.transGen_swap.mpr hs)

end Stands

theorem under_of_alias (h : Relation.TransGen lookup.Alias name target) :
    Relation.TransGen lookup.Under target name := by
  induction h with
  | single step => exact .single (.inl step)
  | tail _ step ih => exact .head (.inl step) ih

theorem MetBy.mono (hs : ∀ name, among name → larger name) (h : lookup.MetBy among demand) :
    lookup.MetBy larger demand := by
  cases demand with
  | refer path =>
    obtain ⟨name, hn, ha⟩ := h
    exact ⟨name, hn, hs name ha⟩
  | extend path =>
    obtain ⟨name, hn, ha, he⟩ := h
    exact ⟨name, hn, hs name ha, he⟩
  | never => exact h

theorem closed_good (lookup : Lookup) : lookup.Closed lookup.Good := by
  refine ⟨fun name h => ?_, fun name h demand hd => ?_⟩
  · obtain ⟨among, hc, ha⟩ := h
    exact hc.founded name ha
  · obtain ⟨among, hc, ha⟩ := h
    exact (hc.met name ha demand hd).mono fun other ho => ⟨among, hc, ho⟩

theorem Good.acc (h : lookup.Good name) : Acc lookup.Under name :=
  (closed_good lookup).founded name h

theorem Alias.good (h : lookup.Alias name target) (hg : lookup.Good name) : lookup.Good target := by
  obtain ⟨path, ht, hn⟩ := h.needs_iff
  obtain ⟨other, ho, hgood⟩ := (closed_good lookup).met name hg _ ((hn _).mpr rfl)
  exact Option.some.inj (ht.symm.trans ho) ▸ hgood

theorem Stands.good (h : lookup.Stands name owner schema) (hg : lookup.Good name) :
    lookup.Good owner := by
  induction h with
  | own => exact hg
  | link step _ ih => exact ih (step.good hg)

theorem Fails.mono (hs : ∀ demand, needs demand → wider demand) (h : lookup.Fails needs) :
    lookup.Fails wider := by
  obtain ⟨demand, hd, hm⟩ := h
  exact ⟨demand, hs demand hd, hm⟩

theorem fails_never (h : needs .never) : lookup.Fails needs := ⟨.never, h, id⟩

theorem fails_of_unnamed (h : needs (.refer path) ∨ needs (.extend path))
    (hn : Section.schemas.named? path = none) : lookup.Fails needs := by
  rcases h with hr | he
  · refine ⟨_, hr, ?_⟩
    rintro ⟨name, ho, _⟩
    cases hn.symm.trans ho
  · refine ⟨_, he, ?_⟩
    rintro ⟨name, ho, _⟩
    cases hn.symm.trans ho

theorem fails_of_not_good (h : needs (.refer path) ∨ needs (.extend path))
    (hn : Section.schemas.named? path = some name) (hg : ¬ lookup.Good name) :
    lookup.Fails needs := by
  rcases h with hr | he
  · refine ⟨_, hr, ?_⟩
    rintro ⟨other, ho, hgood⟩
    exact hg (Option.some.inj (hn.symm.trans ho) ▸ hgood)
  · refine ⟨_, he, ?_⟩
    rintro ⟨other, ho, hgood, _⟩
    exact hg (Option.some.inj (hn.symm.trans ho) ▸ hgood)

theorem fails_of_not_extensible (h : needs (.extend path))
    (hn : Section.schemas.named? path = some name) (he : ¬ lookup.Extensible name) :
    lookup.Fails needs := by
  refine ⟨_, h, ?_⟩
  rintro ⟨other, ho, _, hext, _⟩
  exact he (Option.some.inj (hn.symm.trans ho) ▸ hext)

theorem not_good_of_fails (h : lookup.Fails (lookup.Needs (.component name))) :
    ¬ lookup.Good name := by
  obtain ⟨demand, hd, hm⟩ := h
  exact fun hg => hm ((closed_good lookup).met name hg demand hd)

end Lookup

end ApiAtlas
