import ApiAtlas.Proofs.DocumentSoundness
import ApiAtlas.Proofs.PlainComponents
import ApiAtlas.Proofs.SchemaPlaces

namespace ApiAtlas

namespace Resolving

variable {α β γ : Type} {p : String → Prop} {work : Resolving α} {next : α → Resolving β}

/-- When the work fails, its error is at such a place. -/
def Blames (p : String → Prop) (work : Resolving α) : Prop :=
  ∀ arena error after, outcome work arena = (.error error, after) → p error.location

theorem Blames.pure {a : α} : Blames p (pure a) := by
  intro arena error after h
  cases h

theorem Blames.throw {error : ResolveError} (h : p error.location) :
    Blames p (throw error : Resolving α) := by
  intro arena other after ho
  cases ho
  exact h

theorem Blames.lift {result : Except ResolveError α}
    (h : ∀ error, result = .error error → p error.location) :
    Blames p (liftM result : Resolving α) := by
  intro arena error after ho
  rw [outcome_lift] at ho
  exact h error (Prod.mk.inj ho).1

theorem Blames.get : Blames p (get : Resolving Arena) := by
  intro arena error after h
  cases h

theorem Blames.modify {change : Arena → Arena} : Blames p (modify change : Resolving Unit) := by
  intro arena error after h
  cases h

theorem Blames.reserve {scope : List String} : Blames p (reserve scope) := by
  intro arena error after h
  cases h

theorem Blames.push {model : Model} {scope : List String} : Blames p (push model scope) := by
  intro arena error after h
  cases h

theorem Blames.fill {id : ModelId} {model : Model} : Blames p (fill id model) := by
  intro arena error after h
  cases h

theorem Blames.bind (hw : Blames p work) (hn : ∀ a, Blames p (next a)) :
    Blames p (work >>= next) := by
  intro arena error after h
  rw [outcome_bind] at h
  split at h
  next a middle _ => exact hn a middle error after h
  next other middle ho =>
    cases h
    exact hw arena error after ho

theorem Blames.lift_bind {result : Except ResolveError α}
    (hok : ∀ a, result = .ok a → Blames p (next a))
    (herror : ∀ error, result = .error error → p error.location) :
    Blames p (liftM result >>= next) := by
  intro arena error after h
  rw [outcome_bind, outcome_lift] at h
  cases hr : result with
  | ok a =>
    rw [hr] at h
    exact hok a hr arena error after h
  | error other =>
    rw [hr] at h
    cases h
    exact herror error hr

theorem Blames.mapM {each : γ → Resolving β} {items : List γ}
    (h : ∀ item ∈ items, Blames p (each item)) : Blames p (items.mapM each) := by
  induction items with
  | nil =>
    rw [List.mapM_nil]
    exact Blames.pure
  | cons item rest ih =>
    rw [List.mapM_cons]
    have hrest := ih fun other ho => h other (List.mem_cons_of_mem _ ho)
    exact (h item List.mem_cons_self).bind fun b => hrest.bind fun bs => Blames.pure

theorem Blames.foldlM {step : β → γ → Resolving β} {items : List γ}
    (h : ∀ item ∈ items, ∀ b, Blames p (step b item)) (b : β) :
    Blames p (items.foldlM step b) := by
  induction items generalizing b with
  | nil =>
    rw [List.foldlM_nil]
    exact Blames.pure
  | cons item rest ih =>
    rw [List.foldlM_cons]
    exact (h item List.mem_cons_self b).bind fun b' =>
      ih (fun other ho => h other (List.mem_cons_of_mem _ ho)) b'

end Resolving

open Resolving

/-- Calls that fail, if at all, at places that are explained, when what they are called for stands
where they are told. -/
structure Calls.Blame (document : Document) (calls : Calls) : Prop where
  resolve : ∀ trail node pos, document.Stands node pos.pointer →
    Blames document.Explains (calls.resolve trail node pos)
  build : ∀ trail schema pos, document.Stands (.inline schema) pos.pointer →
    Blames document.Explains (calls.build trail schema pos)
  merge : ∀ trail schema pointer pos merged, document.Stands (.inline schema) pointer →
    Blames document.Explains (calls.merge trail schema pointer pos merged)

theorem Document.stands_component {document : Document} {name : String} {node : SchemaNode}
    (h : Entries.get? document.schemas name = some node) :
    document.Stands node (Section.schemas.pointer name) := by
  have hm : (name, node) ∈ document.schemas := Entries.mem_of_get? h
  by_cases hn : escapeToken name = name
  · apply Or.inl
    unfold Document.schemas at hm
    cases hc : document.components with
    | none => simp [hc] at hm
    | some components =>
      simp only [hc] at hm
      have hroot := Document.Holds.here document
      rw [Document.toJson_eq] at hroot
      have hcomponents : document.Holds (below "#" (escapeToken "components"))
          components.toJson := by
        apply hroot.member "components"
        rw [Table.mem_members]
        simp [Document.table, hc]
      rw [Components.toJson_eq] at hcomponents
      have hrow : ∀ v, Json.objectIfAny (membersOf SchemaNode.toJson components.schemas) =
          some v → v ∈ (Json.object components.table.members).inside "schemas" := by
        intro v hv
        apply Json.mem_inside
        rw [Table.mem_members]
        simp [Components.table, hv]
      have hnode := hcomponents.mapMember "schemas" hrow hm
      rw [hn] at hnode
      exact hnode
  · exact .inr (.name hm hn)

namespace Registry

variable {document : Document} {registry : Registry} {calls : Calls} {trail : Trail}
  {name path location : String} {node : SchemaNode} {schema : Schema} {pos : Position}

section Step
variable (hschemas : registry.schemas = document.schemas) (hcalls : calls.Blame document)
include hschemas hcalls

theorem componentId_blames (h : document.Explains location) :
    Blames document.Explains (registry.componentId calls trail name path location) := by
  rw [componentId_eq]
  refine Blames.get.bind fun arena => ?_
  cases Entries.get? arena.memo name with
  | some id => exact Blames.pure
  | none =>
    simp only
    split
    next => exact Blames.throw h
    next =>
      split
      next => exact Blames.throw h
      next =>
        cases hb : Entries.get? registry.schemas name with
        | none => exact Blames.throw h
        | some body =>
          have hstands := (Document.stands_component (hschemas ▸ hb)).unwrap
          simp only
          cases hn : (body.unwrap (Section.schemas.pointer name)).node with
          | ref target =>
            rw [hn] at hstands
            exact (hcalls.resolve _ _ _ hstands).bind fun resolved =>
              Blames.modify.bind fun _ => Blames.pure
          | inline schema =>
            rw [hn] at hstands
            have hbuild := hcalls.build {} schema ⟨.named name, [], _⟩ hstands
            exact Blames.reserve.bind fun id => Blames.modify.bind fun _ =>
              hbuild.bind fun model => Blames.fill.bind fun _ => Blames.pure

theorem resolveRef_blames (h : document.Explains location) :
    Blames document.Explains (registry.resolveRef calls trail path location) := by
  unfold resolveRef
  refine Blames.lift_bind (fun name hn => ?_) fun error he => ?_
  · exact (componentId_blames hschemas hcalls h).bind fun id => Blames.pure
  · rw [Section.parseName_eq] at he
    split at he
    next => cases he
    next =>
      cases he
      exact h

omit hcalls in
/-- A component that is followed through other names is blamed where it is referred to. -/
theorem writtenComponent_blames (fuel : Nat) : ∀ (seen : List String) (path : String)
    {location : String}, document.Explains location → ∀ error,
      registry.writtenComponent fuel seen path location = .error error →
        document.Explains error.location := by
  induction fuel with
  | zero =>
    intro seen path location h error he
    cases he
    exact h
  | succ fuel ih =>
    intro seen path location h error he
    rw [writtenComponent, Section.parseName_eq] at he
    cases hn : Section.schemas.named? path with
    | none =>
      rw [hn] at he
      cases he
      exact h
    | some name =>
      simp only [hn, bind, Except.bind] at he
      split at he
      next =>
        cases he
        exact h
      next =>
        cases hb : Entries.get? registry.schemas name with
        | none =>
          rw [hb] at he
          cases he
          exact h
        | some body =>
          rw [hb] at he
          have hstands := Document.stands_component (hschemas ▸ hb)
          cases body with
          | ref next => exact ih _ next hstands.explained error he
          | inline schema => cases he

theorem mergeUnfinished_blames {merged : Merged} (h : document.Explains location) :
    Blames document.Explains (registry.mergeUnfinished calls trail path location pos merged) := by
  rw [mergeUnfinished_eq]
  refine Blames.lift_bind (fun written hw => ?_) (writtenComponent_blames hschemas _ [] path h)
  obtain ⟨owner, body⟩ := written
  obtain ⟨_, _, hwritten⟩ := Lookup.writtenAs_of_ok _ hw
  have hstands : document.Stands (.inline body) (Section.schemas.pointer owner) :=
    Document.stands_component (hschemas ▸ hwritten.found)
  simp only
  split
  next => exact Blames.throw h
  next =>
    split
    next => exact Blames.throw h
    next => exact hcalls.merge _ _ _ _ _ hstands

theorem mergeComponent_blames {merged : Merged} (h : document.Explains location) :
    Blames document.Explains (registry.mergeComponent calls trail path location pos merged) := by
  unfold mergeComponent
  refine (resolveRef_blames hschemas hcalls h).bind fun target => Blames.get.bind fun arena => ?_
  split
  next => exact Blames.pure
  next => exact Blames.pure
  next => exact Blames.throw h
  next => exact mergeUnfinished_blames hschemas hcalls h

theorem mergeBranch_blames {pointer : String} {merged : Merged} {index : Nat}
    (h : document.Stands node (below (below pointer "allOf") (toString index))) :
    Blames document.Explains
      (registry.mergeBranch calls trail pointer pos merged (node, index)) := by
  unfold mergeBranch
  cases node with
  | ref path => exact mergeComponent_blames hschemas hcalls h.explained
  | inline schema =>
    simp only
    split
    next => exact Blames.pure
    next =>
      split
      next => exact hcalls.merge _ _ _ _ _ h
      next => exact Blames.throw h.explained

end Step

section Below
variable (hcalls : calls.Blame document)
include hcalls

theorem resolveProperty_blames {parent : String}
    (h : document.Stands node (below (below parent "properties") (escapeToken name))) :
    Blames document.Explains (resolveProperty calls trail parent pos name node) := by
  unfold resolveProperty
  exact (hcalls.resolve _ _ ⟨_, _, _⟩ h).bind fun model => Blames.pure

theorem buildObject_blames (h : document.Sited schema pos.pointer) :
    Blames document.Explains (buildObject calls trail schema pos) := by
  unfold buildObject
  refine (Blames.mapM fun pair hm => ?_).bind fun properties => Blames.pure
  obtain ⟨name, node⟩ := pair
  exact (resolveProperty_blames hcalls (h.property hm)).bind fun property => Blames.pure

theorem unionCases_blames {branches : List (SchemaNode × Nat)}
    (h : ∀ branch ∈ branches, document.Stands branch.1
      (below (below pos.pointer schema.compositionKeyword) (toString branch.2)))
    (cases : List Case) :
    Blames document.Explains (unionCases calls trail schema pos branches cases) := by
  induction branches generalizing cases with
  | nil => exact Blames.pure
  | cons branch rest ih =>
    obtain ⟨node, index⟩ := branch
    have hrest := ih fun other ho => h other (List.mem_cons_of_mem _ ho)
    rw [unionCases]
    split
    next => exact hrest cases
    next =>
      have hplace := h (node, index) List.mem_cons_self
      refine Blames.bind (hcalls.resolve trail node _ ?_) fun model => hrest _
      exact hplace

theorem buildUnion_blames (h : document.Sited schema pos.pointer) :
    Blames document.Explains (buildUnion calls trail schema pos) := by
  unfold buildUnion
  refine (unionCases_blames hcalls (fun branch hm => h.case hm) []).bind fun cases => ?_
  split
  next => exact Blames.pure
  next => exact Blames.pure

theorem buildArray_blames (h : document.Sited schema pos.pointer) :
    Blames document.Explains (buildArray calls trail schema pos) := by
  unfold buildArray
  cases hi : schema.items with
  | none => exact (Blames.push.bind fun id => Blames.pure).bind fun element => Blames.pure
  | some items =>
    have hitems := hcalls.resolve trail items (pos.at (below pos.pointer "items")) (h.items hi)
    exact hitems.bind fun element => Blames.pure

theorem buildMap_blames {value : SchemaNode}
    (h : document.Stands value (below pos.pointer "additionalProperties")) :
    Blames document.Explains (buildMap calls trail value pos) := by
  unfold buildMap
  have hvalue := hcalls.resolve trail value (pos.at (below pos.pointer "additionalProperties")) h
  exact hvalue.bind fun element => Blames.pure

end Below

theorem plainModel_blames (h : document.Explains pos.pointer) :
    Blames document.Explains (liftM (registry.plainModel schema pos) : Resolving Model) := by
  refine Blames.lift fun error he => ?_
  unfold plainModel at he
  split at he
  next => cases he
  next =>
    unfold buildEnum at he
    split at he
    next =>
      cases he
      exact h
    next =>
      cases he
      exact h
    next =>
      simp only at he
      split at he <;> cases he
  next =>
    split at he
    next => cases he
    next => split at he <;> cases he

section Step
variable (hschemas : registry.schemas = document.schemas) (hcalls : calls.Blame document)
include hschemas hcalls

theorem mergeSchema_blames {pointer : String} {merged : Merged}
    (h : document.Sited schema pointer) :
    Blames document.Explains (registry.mergeSchema calls trail schema pointer pos merged) := by
  unfold mergeSchema
  refine (Blames.foldlM (fun branch hm merged => ?_) _).bind fun merged => ?_
  · obtain ⟨node, index⟩ := branch
    exact mergeBranch_blames hschemas hcalls (h.branch hm)
  · refine (Blames.foldlM (fun pair hm merged => ?_) _).bind fun merged => Blames.pure
    obtain ⟨name, node⟩ := pair
    exact (resolveProperty_blames hcalls (h.property hm)).bind fun property => Blames.pure

theorem buildAllOf_blames (h : document.Sited schema pos.pointer) :
    Blames document.Explains (registry.buildAllOf calls trail schema pos) := by
  unfold buildAllOf
  split
  next => exact Blames.throw h.here
  next =>
    refine (mergeSchema_blames hschemas hcalls h).bind fun merged => ?_
    split
    next => exact Blames.pure
    next => exact Blames.pure

theorem buildForm_blames {several : Resolving Model} {form : Form}
    (hform : registry.form schema = form)
    (hseveral : form = .several → Blames document.Explains several)
    (h : document.Sited schema pos.pointer) :
    Blames document.Explains (registry.buildForm calls several trail schema pos form) := by
  cases form with
  | merged => exact buildAllOf_blames hschemas hcalls h
  | object => exact buildObject_blames hcalls h
  | array => exact buildArray_blames hcalls h
  | map value => exact buildMap_blames hcalls (h.additional (form_eq_map hform))
  | union => exact buildUnion_blames hcalls h
  | several => exact hseveral rfl
  | plain => exact plainModel_blames h.here

theorem buildTypeUnion_blames (hform : registry.form schema = .several)
    (h : document.Stands (.inline schema) pos.pointer) :
    Blames document.Explains (registry.buildTypeUnion calls trail schema pos) := by
  unfold buildTypeUnion typeCases
  refine (Blames.mapM fun pair hm => ?_).bind fun cases => Blames.pure
  obtain ⟨type, index⟩ := pair
  have hi : index < schema.nonNullTypes.length := List.snd_lt_of_mem_zipIdx hm
  simp only [classify_eq_buildForm]
  refine Blames.reserve.bind fun id => Blames.bind ?_ fun model =>
    Blames.fill.bind fun _ => Blames.pure
  exact buildForm_blames hschemas hcalls rfl (fun _ => Blames.pure) (h.ofType hform hi)

theorem buildSchema_blames (h : document.Stands (.inline schema) pos.pointer) :
    Blames document.Explains (registry.buildSchema calls trail schema pos) := by
  rw [buildSchema_eq_buildForm]
  exact buildForm_blames hschemas hcalls rfl
    (fun hform => buildTypeUnion_blames hschemas hcalls hform h) h.sited

theorem resolveNode_blames (h : document.Stands node pos.pointer) :
    Blames document.Explains (registry.resolveNode calls trail node pos) := by
  have hstands := h.unwrap
  unfold resolveNode
  simp only
  split
  next path hn =>
    exact resolveRef_blames hschemas hcalls hstands.explained
  next schema hn =>
    rw [hn] at hstands
    have hbuild := hcalls.build trail schema (pos.at (node.unwrap pos.pointer).pointer) hstands
    exact Blames.reserve.bind fun id => hbuild.bind fun model =>
      Blames.fill.bind fun _ => Blames.pure

end Step

theorem noCalls_blame : noCalls.Blame document where
  resolve _ _ _ h := Blames.throw h.explained
  build _ _ _ h := Blames.throw h.explained
  merge _ _ _ _ _ h := Blames.throw h.explained

theorem callsWithin_blame (hschemas : registry.schemas = document.schemas) (depth : Nat) :
    (registry.callsWithin noCalls depth).Blame document := by
  induction depth with
  | zero =>
    rw [callsWithin_zero]
    exact noCalls_blame
  | succ depth ih =>
    refine ⟨fun trail node pos h => ?_, fun trail schema pos h => ?_,
      fun trail schema pointer pos merged h => ?_⟩
    · simp only [callsWithin, resolveWithin]
      exact resolveNode_blames hschemas ih h
    · simp only [callsWithin, buildWithin]
      exact buildSchema_blames hschemas ih h
    · simp only [callsWithin, mergeWithin]
      exact mergeSchema_blames hschemas ih h.sited

theorem resolve_blames (hschemas : registry.schemas = document.schemas)
    (h : document.Stands node pos.pointer) :
    Blames document.Explains (registry.resolve node pos) :=
  (callsWithin_blame hschemas (registry.budget node.size)).resolve {} node pos h

theorem component_blames (hschemas : registry.schemas = document.schemas)
    (h : name ∈ Entries.keys document.schemas) :
    Blames document.Explains (registry.component name) := by
  obtain ⟨node, hn⟩ := Entries.has_iff.mp (Entries.has_iff_mem_keys.mpr h)
  exact componentId_blames hschemas (callsWithin_blame hschemas (registry.budget 1))
    (Document.stands_component hn).explained

end Registry

end ApiAtlas
