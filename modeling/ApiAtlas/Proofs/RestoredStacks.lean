import ApiAtlas.Proofs.ResolverSimulation
import ApiAtlas.Proofs.ResolvingOutcome
import ApiAtlas.Resolve.Stacks

namespace ApiAtlas

/-- Cutting off what was added changes nothing beside the arena. -/
theorem Beside.rollback_mk {ω : Type} {before after : Arena} {checkpoint : Checkpoint}
    (h : after.rollback checkpoint = before) (kept : ω) :
    (⟨after, kept⟩ : Beside ω).rollback checkpoint = ⟨before, kept⟩ := by
  rw [rollback, h]

namespace Keeping

variable {ω α β : Type}

theorem outcome_bind (work : Keeping ω α) (next : α → Keeping ω β) (state : Beside ω) :
    (work >>= next).outcome state =
      match work.outcome state with
      | (.ok a, after) => (next a).outcome after
      | (.error error, after) => (.error error, after) := by
  change ExceptT.bindCont (fun a => next a) (work.outcome state).1 (work.outcome state).2 = _
  rcases work.outcome state with ⟨result, after⟩
  cases result <;> rfl

theorem outcome_between (enter : ω → ω) (work : Keeping ω α) (leave : ω → ω → ω)
    (state : Beside ω) :
    (between enter work leave).outcome state =
      let after := work.outcome ⟨state.arena, enter state.kept⟩
      (after.1, ⟨after.2.arena, leave state.kept after.2.kept⟩) := rfl

end Keeping

/-- Work on a resolver does what other work does on the arena alone, while certain names are being
followed, and leaves the stacks as it finds them. -/
def Keeping.Restores {α : Type} (trail : Trail) (work : Keeping Trail α) (plain : Resolving α) :
    Prop :=
  ∀ arena, work.outcome ⟨arena, trail⟩ =
    ((plain.outcome arena).1, ⟨(plain.outcome arena).2, trail⟩)

/-- What stands on the stacks and what is handed on come to the same, and the stacks are restored:
a name that is pushed is popped again, whether the work between them succeeds or fails. -/
def restoring : Simulation (Keeping Trail) Resolving Unit Trail where
  same _ trail work plain := work.Restores trail plain
  pure _ _ _ := fun _ => rfl
  bind {_ _ _ trail work plain _ _} h hn := fun arena => by
    rw [Keeping.outcome_bind, h arena, Resolving.outcome_bind]
    rcases plain.outcome arena with ⟨result, after⟩
    cases result with
    | ok a => exact hn a after
    | error error => rfl
  throw _ _ _ := fun _ => rfl
  lift _ _ result := fun arena => by cases result <;> rfl
  get _ _ := fun _ => rfl
  modifyGet _ _ _ := fun _ => rfl
  aliases _ _ := fun _ => rfl
  inheriting _ _ := fun _ => rfl
  followAlias _ trail name work plain h := fun arena => by
    have hwork := h () { trail with aliases := trail.aliases ++ [name] } arena
    refine (Keeping.outcome_between _ _ _ _).trans ?_
    simp only [hwork, List.dropLast_concat]
    rfl
  inherit _ trail name work plain h := fun arena => by
    have hwork := h () { trail with inheriting := trail.inheriting ++ [name] } arena
    refine (Keeping.outcome_between _ _ _ _).trans ?_
    simp only [hwork, List.dropLast_concat]
    rfl
  afresh _ trail work plain h := fun arena => by
    have hwork := h () {} arena
    refine (Keeping.outcome_between _ _ _ _).trans ?_
    simp only [hwork]
    rfl

namespace Registry

variable {registry : Registry} {name : String}

/-- Calls nested to any depth do what the calls do that hand on what is being followed, and each of
them restores the stacks. -/
theorem callsWithin_restores (registry : Registry) (depth : Nat) :
    restoring.Relates (registry.callsWithin .failing depth) (registry.callsWithin noCalls depth) :=
  callsWithin_relates (failing_relates restoring) depth

theorem resolveStacked_restores (registry : Registry) (node : SchemaNode) (pos : Position) :
    (registry.resolveStacked node pos).Restores {} (registry.resolve node pos) :=
  (registry.callsWithin_restores (registry.budget node.size)).resolve () {} node pos

theorem componentStacked_restores (registry : Registry) (name : String) :
    (registry.componentStacked name).Restores {} (registry.component name) :=
  componentId_same (registry.callsWithin_restores (registry.budget 1)) name _

/-- Components are resolved as they are without stacks, and the stacks are empty in the end. -/
theorem resolveNamesStacked_eq (names : List String) : ∀ arena : Arena,
    registry.resolveNamesStacked names ⟨arena, {}⟩ =
      ((registry.resolveNames names arena).1, ⟨(registry.resolveNames names arena).2, {}⟩) := by
  induction names with
  | nil => exact fun arena => rfl
  | cons name rest ih =>
    intro arena
    have hname := registry.componentStacked_restores name arena
    rw [resolveNamesStacked, resolveNames, hname, Resolving.attempt_eq]
    simp only
    split
    next => exact ih arena
    next =>
      rcases Resolving.outcome (registry.component name) arena with ⟨result, after⟩
      cases result with
      | ok id => exact ih after
      | error error =>
        simp only [Beside.rollback, Beside.checkpoint, Beside.fail, ih]

end Registry

end ApiAtlas
