import ApiAtlas.Proofs.RestoredStacks

namespace ApiAtlas

/-- A component that is entered, and the components that have a place by then but no model, itself
among them. -/
structure Entry where
  name : String
  unfinished : List String
deriving Repr, DecidableEq

/-- The components that have a place but no model yet. -/
def Arena.unfinished (arena : Arena) : List String :=
  Entries.keys (arena.memo.filter fun pair => (arena.model? pair.2).isNone)

section

variable {m : Type → Type} [Monad m] [MonadExcept ResolveError m] [MonadState Arena m]
  [MonadLiftT (Except ResolveError) m] {τ : Type} [Following m τ]

/-- Calls that do something more before the model of a schema is built. -/
def Calls.before (calls : Calls m τ) (first : Position → m Unit) : Calls m τ :=
  { calls with build := fun trail schema pos => do
      first pos
      calls.build trail schema pos }

/-- Calls that may be nested `depth` deep, with something more to do before a model is built. -/
def Registry.callsAfter (registry : Registry) (first : Position → m Unit) : Nat → Calls m τ
  | 0 => .failing
  | depth + 1 => (registry.step (registry.callsAfter first depth)).before first

end

namespace Registry

/-- The component whose body stands at this position. -/
def bodyAt? (registry : Registry) (pos : Position) : Option String := do
  let .named name := pos.context | none
  let body ← Entries.get? registry.schemas name
  if pos = ⟨.named name, [], (body.unwrap (Section.schemas.pointer name)).pointer⟩ then some name
  else none

/-- The component that is entered when a model is built for this position. -/
def entryAt? (registry : Registry) (pos : Position) (arena : Arena) : Option Entry :=
  (registry.bodyAt? pos).map fun name => ⟨name, arena.unfinished⟩

instance : Following (Keeping (List Entry)) Trail := .handedOn

/-- Keep the entry of a component beside the arena. -/
def record (registry : Registry) (pos : Position) : Keeping (List Entry) Unit :=
  Keeping.ofOutcome fun state =>
    (.ok (), { state with kept := state.kept ++ (registry.entryAt? pos state.arena).toList })

/-- The model of a component, the entries on the way to it kept. -/
def componentRecorded (registry : Registry) (name : String) : Keeping (List Entry) ModelId :=
  let pointer := Section.schemas.pointer name
  registry.componentId (registry.callsAfter registry.record (registry.budget 1)) ({} : Trail) name
    pointer pointer

/-- The components that are entered while some are resolved in order. What is entered on the way to
one that fails is cut off with it. -/
def entriesOf (registry : Registry) : List String → Arena → List Entry
  | [], _ => []
  | name :: rest, arena =>
    if Entries.has arena.memo name then registry.entriesOf rest arena
    else
      match (registry.componentRecorded name).outcome ⟨arena, []⟩ with
      | (.ok _, after) => after.kept ++ registry.entriesOf rest after.arena
      | (.error _, after) =>
        registry.entriesOf rest ((after.rollback arena.checkpoint).fail name).arena

/-- The components that are entered while all are resolved in the order of the document. -/
def entries (registry : Registry) : List Entry :=
  registry.entriesOf (Entries.keys registry.schemas) {}

/-- Fail where a component is entered otherwise than it may be. -/
def permit (registry : Registry) (allowed : List Entry) (pos : Position) : Resolving Unit := do
  let arena ← get
  if (registry.entryAt? pos arena).all fun entry => entry ∈ allowed then pure ()
  else throw (.schemaShape "entered otherwise" pos.pointer)

/-- The model of a component, where others are entered on the way to it only as they may be. -/
def componentPermitted (registry : Registry) (allowed : List Entry) (name : String) :
    Resolving ModelId :=
  let pointer := Section.schemas.pointer name
  registry.componentId (registry.callsAfter (registry.permit allowed) (registry.budget 1))
    ({} : Trail) name pointer pointer

end Registry

/-- The work adds entries to those that are kept. Where only some that are allowed are added, other
work does the same on the arena alone. -/
def Keeping.Adds {α : Type} (allowed : List Entry) (work : Keeping (List Entry) α)
    (plain : Resolving α) : Prop :=
  ∀ arena kept, ∃ added, (work.outcome ⟨arena, kept⟩).2.kept = kept ++ added ∧
    (added ⊆ allowed → plain.outcome arena =
      ((work.outcome ⟨arena, kept⟩).1, (work.outcome ⟨arena, kept⟩).2.arena))

namespace Keeping.Adds

variable {α β : Type} {allowed : List Entry} {work : Keeping (List Entry) α} {plain : Resolving α}

/-- Work that adds no entries. -/
theorem of_eq (h : ∀ arena kept, work.outcome ⟨arena, kept⟩ =
    ((plain.outcome arena).1, ⟨(plain.outcome arena).2, kept⟩)) : work.Adds allowed plain := by
  intro arena kept
  refine ⟨[], ?_, fun _ => ?_⟩
  · simp [h]
  · rw [h]

theorem bind {next : α → Keeping (List Entry) β} {next' : α → Resolving β}
    (h : work.Adds allowed plain) (hn : ∀ a, (next a).Adds allowed (next' a)) :
    (work >>= next).Adds allowed (plain >>= next') := by
  intro arena kept
  obtain ⟨added, hkept, hsame⟩ := h arena kept
  rw [outcome_bind, Resolving.outcome_bind]
  rcases hw : work.outcome ⟨arena, kept⟩ with ⟨result, middle, now⟩
  rw [hw] at hkept hsame
  cases result with
  | error error =>
    refine ⟨added, hkept, fun hs => ?_⟩
    rw [hsame hs]
  | ok a =>
    obtain ⟨later, hlater, hrest⟩ := hn a middle now
    simp only at hkept
    refine ⟨added ++ later, ?_, fun hs => ?_⟩
    · rw [hlater, hkept, List.append_assoc]
    · rw [List.append_subset] at hs
      rw [hsame hs.1]
      exact hrest hs.2

end Keeping.Adds

/-- The work that keeps entries, and work that is done on the arena alone. -/
def recording (allowed : List Entry) : Simulation (Keeping (List Entry)) Resolving Trail Trail where
  same trail trail' work plain := trail = trail' → work.Adds allowed plain
  pure _ _ _ := fun _ => .of_eq fun _ _ => rfl
  bind h hn := fun ht => (h ht).bind fun a => hn a ht
  throw _ _ _ := fun _ => .of_eq fun _ _ => rfl
  lift _ _ result := fun _ => .of_eq fun _ _ => by cases result <;> rfl
  get _ _ := fun _ => .of_eq fun _ _ => rfl
  modifyGet _ _ _ := fun _ => .of_eq fun _ _ => rfl
  aliases _ _ := fun ht => ht ▸ .of_eq fun _ _ => rfl
  inheriting _ _ := fun ht => ht ▸ .of_eq fun _ _ => rfl
  followAlias _ _ _ _ _ h := fun ht => ht ▸ h _ _ rfl
  inherit _ _ _ _ _ h := fun ht => ht ▸ h _ _ rfl
  afresh _ _ _ _ h := fun _ => h {} {} rfl

namespace Registry

variable {registry : Registry} {allowed : List Entry} {name : String} {pos : Position}

/-- A component is entered where its body is built. -/
theorem bodyAt?_body {body : SchemaNode} (hb : Entries.get? registry.schemas name = some body) :
    registry.bodyAt? ⟨.named name, [], (body.unwrap (Section.schemas.pointer name)).pointer⟩ =
      some name := by
  simp [bodyAt?, hb]

theorem record_adds : (registry.record pos).Adds allowed (registry.permit allowed pos) := by
  intro arena kept
  refine ⟨(registry.entryAt? pos arena).toList, rfl, fun hs => ?_⟩
  have hall : (registry.entryAt? pos arena).all (fun entry => entry ∈ allowed) = true := by
    cases h : registry.entryAt? pos arena with
    | none => rfl
    | some entry => simpa [h] using hs
  unfold permit
  rw [Resolving.outcome_get_bind, if_pos hall]
  rfl

/-- Calls that keep entries do what others do that do not. -/
theorem callsAfter_relates {first : Position → Keeping (List Entry) Unit}
    {first' : Position → Resolving Unit} (h : ∀ pos, (first pos).Adds allowed (first' pos))
    (depth : Nat) :
    (recording allowed).Relates (registry.callsAfter first depth)
      (registry.callsAfter first' depth) := by
  induction depth with
  | zero => exact failing_relates _
  | succ depth ih =>
    have hstep : (recording allowed).Relates (registry.step (registry.callsAfter first depth))
        (registry.step (registry.callsAfter first' depth)) := step_relates ih
    exact ⟨hstep.resolve, fun _ _ _ _ ht => (h _).bind fun _ => hstep.build _ _ _ _ ht, hstep.merge⟩

/-- With nothing more to do they are the calls of the resolver. -/
theorem callsAfter_pure (depth : Nat) :
    registry.callsAfter (fun _ => (pure () : Resolving Unit)) depth =
      registry.callsWithin noCalls depth := by
  induction depth with
  | zero =>
    rw [callsWithin_zero]
    rfl
  | succ depth ih =>
    rw [callsWithin_succ, callsAfter, ih]
    simp only [Calls.before, pure_bind]

/-- A component is resolved as it is where the entries are kept, and so it is where no others are
allowed than those that were kept. -/
theorem outcome_componentRecorded (name : String) (arena : Arena) :
    let recorded := (registry.componentRecorded name).outcome ⟨arena, []⟩
    Resolving.outcome (registry.component name) arena = (recorded.1, recorded.2.arena) ∧
      Resolving.outcome (registry.componentPermitted recorded.2.kept name) arena =
        (recorded.1, recorded.2.arena) := by
  intro recorded
  have hadds : ∀ {allowed : List Entry} {first : Position → Resolving Unit},
      (∀ pos, (registry.record pos).Adds allowed (first pos)) →
        (registry.componentRecorded name).Adds allowed
          (registry.componentId (registry.callsAfter first (registry.budget 1)) {} name
            (Section.schemas.pointer name) (Section.schemas.pointer name)) :=
    fun h => componentId_same (callsAfter_relates h _) name _ rfl
  constructor
  · have hplain : ∀ pos, (registry.record pos).Adds recorded.2.kept (pure ()) :=
      fun pos arena kept => ⟨_, rfl, fun _ => rfl⟩
    obtain ⟨added, hkept, hsame⟩ := hadds hplain arena []
    rw [callsAfter_pure] at hsame
    exact hsame (by rw [← List.nil_append added, ← hkept]; exact List.Subset.refl _)
  · obtain ⟨added, hkept, hsame⟩ := hadds (fun _ => record_adds) arena []
    exact hsame (by rw [← List.nil_append added, ← hkept]; exact List.Subset.refl _)

/-- The entries on the way to a component that is resolved come first. With no others allowed it is
resolved all the same. -/
theorem entriesOf_kept {rest : List String} {arena after : Arena} {id : ModelId}
    (hm : Entries.has arena.memo name = false)
    (he : Resolving.outcome (registry.component name) arena = (.ok id, after)) :
    ∃ allowed, registry.entriesOf (name :: rest) arena = allowed ++ registry.entriesOf rest after ∧
      Resolving.outcome (registry.componentPermitted allowed name) arena = (.ok id, after) := by
  obtain ⟨hplain, hpermitted⟩ := registry.outcome_componentRecorded name arena
  rw [entriesOf, hm]
  rcases hr : (registry.componentRecorded name).outcome ⟨arena, []⟩ with ⟨result, last, kept⟩
  rw [hr] at hplain hpermitted
  cases hplain.symm.trans he
  exact ⟨kept, rfl, hpermitted⟩

theorem entriesOf_failed {rest : List String} {arena : Arena} {error : ResolveError}
    (hm : Entries.has arena.memo name = false)
    (he : Resolving.attempt (registry.component name) arena = (.error error, arena)) :
    registry.entriesOf (name :: rest) arena =
      registry.entriesOf rest { arena with failed := arena.failed ++ [name] } := by
  have hplain := (registry.outcome_componentRecorded name arena).1
  rw [entriesOf, hm]
  rcases hr : (registry.componentRecorded name).outcome ⟨arena, []⟩ with ⟨result, last, kept⟩
  rw [hr] at hplain
  rw [Resolving.attempt_eq, hplain] at he
  cases result with
  | ok id => cases he
  | error other =>
    have hback : last.rollback arena.checkpoint = arena := (Prod.mk.inj he).2
    simp only [Beside.rollback, Beside.fail, hback, Bool.false_eq_true, if_false]

end Registry

end ApiAtlas
