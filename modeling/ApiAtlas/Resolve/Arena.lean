import ApiAtlas.Model.Basic
import ApiAtlas.Reference

namespace ApiAtlas

/-- The models so far. -/
structure Arena where
  /-- Reserved places, with their models once these are built. -/
  slots : List (Option Model) := []
  /-- For each place the literal path segments of the operation that it was reserved for. -/
  scopes : List (List String) := []
  /-- The place of each component met so far. -/
  memo : Entries ModelId := []
  /-- Components that were left out. -/
  failed : List String := []
deriving Repr, DecidableEq, Inhabited

/-- The lengths of an arena's lists. -/
structure Checkpoint where
  slots : Nat
  memo : Nat
deriving Repr, DecidableEq, Inhabited

namespace Arena

/-- The lengths now. -/
def checkpoint (arena : Arena) : Checkpoint := ⟨arena.slots.length, arena.memo.length⟩

/-- Cut off what was added since a checkpoint. -/
def rollback (arena : Arena) (checkpoint : Checkpoint) : Arena :=
  { arena with
    slots := arena.slots.take checkpoint.slots
    scopes := arena.scopes.take checkpoint.slots
    memo := arena.memo.take checkpoint.memo }

/-- The model at a place, once it is built. -/
def model? (arena : Arena) (id : ModelId) : Option Model := (arena.slots[id]?).join

/-- A new place without a model. -/
def reserve (arena : Arena) (scope : List String) : ModelId × Arena :=
  (arena.slots.length,
    { arena with slots := arena.slots ++ [none], scopes := arena.scopes ++ [scope] })

/-- Put a model at its place. -/
def fill (arena : Arena) (id : ModelId) (model : Model) : Arena :=
  { arena with slots := arena.slots.set id (some model) }

/-- Note the place of a component. -/
def remember (arena : Arena) (name : String) (id : ModelId) : Arena :=
  { arena with memo := Entries.set name id arena.memo }

/-- A new place with a model. -/
def push (arena : Arena) (model : Model) (scope : List String) : ModelId × Arena :=
  let (id, arena) := arena.reserve scope
  (id, arena.fill id model)

/-- The models that were built. -/
def finish (arena : Arena) : Models :=
  ⟨arena.slots.filterMap id, arena.memo, arena.scopes⟩

end Arena

/-- A computation on an arena that may fail; the arena stays as it was left. -/
abbrev Resolving := ExceptT ResolveError (StateM Arena)

namespace Resolving

variable {m : Type → Type} [MonadState Arena m]

/-- A new place without a model. -/
def reserve (scope : List String) : m ModelId :=
  modifyGet fun arena => arena.reserve scope

/-- Put a model at its place. -/
def fill (id : ModelId) (model : Model) : m Unit :=
  modify fun arena => arena.fill id model

/-- A new place with a model. -/
def push (model : Model) (scope : List String) : m ModelId :=
  modifyGet fun arena => arena.push model scope

/-- A value of any shape, for a node without a schema. -/
def freeForm [Monad m] (scope : List String) : m Resolved := do
  let id ← push .freeForm scope
  pure (.value id)

/-- Run a unit of work; if it fails, cut off what it added. -/
def attempt {α : Type} (work : Resolving α) (arena : Arena) : Except ResolveError α × Arena :=
  match work.run.run arena with
  | (.ok a, after) => (.ok a, after)
  | (.error e, after) => (.error e, after.rollback arena.checkpoint)

end Resolving

end ApiAtlas
