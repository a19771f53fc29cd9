import ApiAtlas.Atlas
import ApiAtlas.CommandLine
import ApiAtlas.Document.Basic
import ApiAtlas.Document.Printer
import ApiAtlas.Document.Reader
import ApiAtlas.Document.Schema
import ApiAtlas.Entries
import ApiAtlas.Export
import ApiAtlas.Json.Basic
import ApiAtlas.Json.Reader
import ApiAtlas.Main
import ApiAtlas.Model.Basic
import ApiAtlas.Model.Context
import ApiAtlas.Naming.Assignment
import ApiAtlas.Naming.EnumCases
import ApiAtlas.Naming.Identifier
import ApiAtlas.Naming.Operation
import ApiAtlas.Naming.Site
import ApiAtlas.Number.Binary64
import ApiAtlas.Number.Decimal
import ApiAtlas.Outline
import ApiAtlas.Reference
import ApiAtlas.Report
import ApiAtlas.Resolve.Arena
import ApiAtlas.Resolve.Choice
import ApiAtlas.Resolve.Follow
import ApiAtlas.Resolve.Operation
import ApiAtlas.Resolve.Schema
import ApiAtlas.Resolve.Wrapper
import ApiAtlas.Route.Basic
import ApiAtlas.Route.Media
import ApiAtlas.Route.Status
import ApiAtlas.Route.Tree
import ApiAtlas.Settings
import ApiAtlas.Source.Fields
import ApiAtlas.Source.Node
import ApiAtlas.Source.Reach
import ApiAtlas.Text.Alphanumeric
import ApiAtlas.Text.CodePoints
import ApiAtlas.Text.LetterCase
import ApiAtlas.Text.Pieces
import ApiAtlas.Text.Words
import ApiAtlas.Yaml.Cursor
import ApiAtlas.Yaml.Printer
import ApiAtlas.Yaml.Reader
import ApiAtlas.Yaml.Scalar
import ApiAtlas.Yaml.Token
import ApiAtlas.Yaml.Tree
import ApiAtlas.Proofs.ArenaGrowth
import ApiAtlas.Proofs.SchemaForm
import ApiAtlas.Proofs.ResolverSoundness
import ApiAtlas.Proofs.RouteSoundness
import ApiAtlas.Proofs.UniqueNames
import ApiAtlas.Proofs.DocumentSoundness
import ApiAtlas.Proofs.InlineNesting
import ApiAtlas.Proofs.Renumbering
import ApiAtlas.Proofs.SideBySide
import ApiAtlas.Proofs.Wrappers
import ApiAtlas.Proofs.ResolutionDepth
import ApiAtlas.Proofs.Nullability
import ApiAtlas.Proofs.ResolverSideBySide
import ApiAtlas.Proofs.RouteSideBySide
import ApiAtlas.Proofs.UnitRemoval
import ApiAtlas.Proofs.FailureIsolation
import ApiAtlas.Proofs.Demands
import ApiAtlas.Proofs.GoodComponents
import ApiAtlas.Proofs.PlainComponents
import ApiAtlas.Proofs.ObjectFacts
import ApiAtlas.Proofs.ArenaJudgement
import ApiAtlas.Proofs.ResolverJudgement
import ApiAtlas.Proofs.OrderIndependence
import ApiAtlas.Proofs.Inheritance
import ApiAtlas.Proofs.ToldObjects
import ApiAtlas.Proofs.RequiredNames
import ApiAtlas.Proofs.CallTree
import ApiAtlas.Proofs.Termination
import ApiAtlas.Proofs.UnitAccounting
import ApiAtlas.Proofs.ErrorLocations
import ApiAtlas.Proofs.ReportLocations
import ApiAtlas.Proofs.OperationIndependence
import ApiAtlas.Proofs.ExactRollback
import ApiAtlas.Proofs.EntryOrder
import ApiAtlas.Proofs.WrittenJson
import ApiAtlas.Proofs.RecordFields
import ApiAtlas.Proofs.TextPlaces
import ApiAtlas.Proofs.KeyOrder
import ApiAtlas.Proofs.JsonText
import ApiAtlas.Proofs.PrintedRecords
import ApiAtlas.Proofs.Pointers
import ApiAtlas.Proofs.SchemaPlaces
import ApiAtlas.Proofs.Echoes
import ApiAtlas.Proofs.NestedSchemas
import ApiAtlas.Proofs.ValueEchoes
import ApiAtlas.Proofs.RoundTrip
import ApiAtlas.Proofs.Reachability
import ApiAtlas.Proofs.Redefinitions
import ApiAtlas.Proofs.UsedModels
import ApiAtlas.Proofs.EveryModelUsed
import ApiAtlas.Proofs.BareNames
import ApiAtlas.Proofs.RouteTreeShape
import ApiAtlas.Proofs.LocationIndependence
import ApiAtlas.Proofs.TransparentWrappers
import ApiAtlas.Proofs.Flattening
import ApiAtlas.Proofs.ModelStandards
import ApiAtlas.Proofs.DistinctKeys
import ApiAtlas.Proofs.MergeOrder
import ApiAtlas.Proofs.StrictNames
import ApiAtlas.Proofs.RouteStandards
import ApiAtlas.Proofs.ModelOrigins
import ApiAtlas.Proofs.EnumValues
import ApiAtlas.Proofs.NumberedTexts
import ApiAtlas.Proofs.CaseLabels
import ApiAtlas.Proofs.StatusKeys
import ApiAtlas.Proofs.ReturnedStatuses
import ApiAtlas.Proofs.NumberRoom
import ApiAtlas.Proofs.LegalIdentifiers
import ApiAtlas.Proofs.RebuiltTree
import ApiAtlas.Proofs.StatusGrammar
import ApiAtlas.Proofs.ReferenceTexts
import ApiAtlas.Proofs.ReferenceChains
import ApiAtlas.Proofs.EnumCarriers
import ApiAtlas.Proofs.MergedParameters
import ApiAtlas.Proofs.MediaTypes
import ApiAtlas.Proofs.EnumCaseNames
import ApiAtlas.Proofs.OutlineLines
import ApiAtlas.Proofs.TextPieces
import ApiAtlas.Proofs.LiteralSegments
import ApiAtlas.Proofs.NameWords
import ApiAtlas.Proofs.ModelPurposes
import ApiAtlas.Proofs.ModelMakers
import ApiAtlas.Proofs.ResolverSimulation
