import ApiAtlas.Resolve.Schema

namespace ApiAtlas

/-- An arena, and what is kept beside it. -/
structure Beside (ω : Type) where
  arena : Arena
  kept : ω
deriving Repr, DecidableEq, Inhabited

namespace Beside

variable {ω : Type}

/-- The lengths of the arena's lists now. -/
def checkpoint (state : Beside ω) : Checkpoint := state.arena.checkpoint

/-- Cut off what was added to the arena since a checkpoint. What is kept beside it stays. -/
def rollback (state : Beside ω) (checkpoint : Checkpoint) : Beside ω :=
  { state with arena := state.arena.rollback checkpoint }

/-- Note that a component was left out. -/
def fail (state : Beside ω) (name : String) : Beside ω :=
  { state with arena := { state.arena with failed := state.arena.failed ++ [name] } }

end Beside

/-- A computation on an arena and on what is kept beside it. It may fail; both stay as they were
left. -/
def Keeping (ω α : Type) : Type := ExceptT ResolveError (StateM (Beside ω)) α

namespace Keeping

variable {ω α : Type}

instance : Monad (Keeping ω) := inferInstanceAs (Monad (ExceptT ResolveError (StateM (Beside ω))))

instance : MonadExcept ResolveError (Keeping ω) :=
  inferInstanceAs (MonadExcept ResolveError (ExceptT ResolveError (StateM (Beside ω))))

instance : MonadLiftT (Except ResolveError) (Keeping ω) :=
  inferInstanceAs (MonadLiftT (Except ResolveError) (ExceptT ResolveError (StateM (Beside ω))))

/-- What work comes to, and what it leaves. -/
def outcome (work : Keeping ω α) (state : Beside ω) : Except ResolveError α × Beside ω :=
  ExceptT.run work |>.run state

/-- Work by what it comes to and what it leaves. -/
def ofOutcome (run : Beside ω → Except ResolveError α × Beside ω) : Keeping ω α :=
  ExceptT.mk fun state => run state

instance : MonadState Arena (Keeping ω) where
  get := ofOutcome fun state => (.ok state.arena, state)
  set arena := ofOutcome fun state => (.ok (), { state with arena })
  modifyGet change := ofOutcome fun state =>
    let (a, arena) := change state.arena
    (.ok a, { state with arena })

/-- Read what is kept. -/
def read (look : ω → α) : Keeping ω α := ofOutcome fun state => (.ok (look state.kept), state)

/-- Work between two changes of what is kept. The second one, which may go back to what was kept
before, is made whether or not the work succeeds. -/
def between (enter : ω → ω) (work : Keeping ω α) (leave : (before after : ω) → ω) :
    Keeping ω α := ofOutcome fun state =>
  let (result, after) := work.outcome { state with kept := enter state.kept }
  (result, { after with kept := leave state.kept after.kept })

end Keeping

/-- A resolver: the arena and the stacks of what is being followed, the innermost name last. -/
abbrev Resolver := Beside Trail

/-- What is being followed stands on the stacks of the resolver: a name is pushed and popped again,
and within a component both stacks are taken away and put back. -/
instance : Following (Keeping Trail) Unit where
  aliases _ := Keeping.read Trail.aliases
  inheriting _ := Keeping.read Trail.inheriting
  followAlias _ name work := Keeping.between
    (fun trail => { trail with aliases := trail.aliases ++ [name] }) (work ())
    fun _ after => { after with aliases := after.aliases.dropLast }
  inherit _ name work := Keeping.between
    (fun trail => { trail with inheriting := trail.inheriting ++ [name] }) (work ())
    fun _ after => { after with inheriting := after.inheriting.dropLast }
  afresh _ work := Keeping.between (fun _ => {}) (work ()) fun before _ => before

namespace Registry

/-- The model of a node, by a resolver with stacks. -/
def resolveStacked (registry : Registry) (node : SchemaNode) (pos : Position) :
    Keeping Trail Resolved :=
  registry.resolveWithin .failing (registry.budget node.size) () node pos

/-- The model of a component, by a resolver with stacks. -/
def componentStacked (registry : Registry) (name : String) : Keeping Trail ModelId :=
  let pointer := Section.schemas.pointer name
  registry.componentId (registry.callsWithin .failing (registry.budget 1)) () name pointer pointer

/-- Resolve some components in order. One that fails is rolled back and left out. -/
def resolveNamesStacked (registry : Registry) : List String → Resolver → Report × Resolver
  | [], resolver => ([], resolver)
  | name :: rest, resolver =>
    if Entries.has resolver.arena.memo name then registry.resolveNamesStacked rest resolver
    else
      match (registry.componentStacked name).outcome resolver with
      | (.ok _, resolver) => registry.resolveNamesStacked rest resolver
      | (.error error, after) =>
        let (report, last) := registry.resolveNamesStacked rest
          ((after.rollback resolver.checkpoint).fail name)
        (⟨.component name, error⟩ :: report, last)

/-- Resolve all components in the order of the document. -/
def resolveComponentsStacked (registry : Registry) (resolver : Resolver) : Report × Resolver :=
  registry.resolveNamesStacked (Entries.keys registry.schemas) resolver

end Registry

end ApiAtlas
