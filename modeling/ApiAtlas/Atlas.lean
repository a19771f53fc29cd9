import ApiAtlas.Naming.Assignment
import ApiAtlas.Resolve.Operation

namespace ApiAtlas

/-- Everything that a document resolves to. -/
structure Atlas where
  info : Info
  servers : List Server
  root : Root Route
  models : Models
  names : NameTable
  report : Report
deriving Repr

/-- The routes of a document before they stand in a tree, the models, and the report. -/
def Document.resolve (settings : Settings) (document : Document) :
    List Route × Models × Report :=
  let registry : Registry := ⟨document.schemas, settings.enums.openExtensions⟩
  let (left, arena) := registry.resolveComponents {}
  let around : Surroundings := ⟨registry, document.components.getD {}, settings.naming⟩
  let ((routes, out), arena) := around.resolveRoutes document.endpoints arena
  (routes, arena.finish, left ++ out)

/-- The atlas of a document. -/
def Atlas.of (settings : Settings) (document : Document) : Except Collision Atlas := do
  let (routes, models, report) := document.resolve settings
  let names ← models.assign settings.naming
  pure {
    info := document.info
    servers := document.servers
    root := settings.routes.tree (settings.routes.rootName.getD document.info.title) routes
    models
    names
    report }

end ApiAtlas
