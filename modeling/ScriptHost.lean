import ScriptHost.Boundary.Arena
import ScriptHost.Boundary.Collection
import ScriptHost.Boundary.Crossing
import ScriptHost.Boundary.Protection
import ScriptHost.Boundary.Published
import ScriptHost.Boundary.Publisher
import ScriptHost.Bridge.Guest
import ScriptHost.Bridge.Snapshot
import ScriptHost.Calls
import ScriptHost.CommandLine
import ScriptHost.Dialect
import ScriptHost.Execution
import ScriptHost.Failure
import ScriptHost.Fault
import ScriptHost.Files.Path
import ScriptHost.Files.Tree
import ScriptHost.Host.Builtin
import ScriptHost.Host.Class
import ScriptHost.Host.Context
import ScriptHost.Host.Convert
import ScriptHost.Host.Object
import ScriptHost.Host.Registry
import ScriptHost.Host.Render
import ScriptHost.Host.Resource
import ScriptHost.Host.Shape
import ScriptHost.Host.Store
import ScriptHost.Host.Value
import ScriptHost.Main
import ScriptHost.Module.Index
import ScriptHost.Module.Resolver
import ScriptHost.Module.Roots
import ScriptHost.Number.Binary64
import ScriptHost.Number.Digits
import ScriptHost.Number.Numeral
import ScriptHost.Proofs.ArenaRuns
import ScriptHost.Proofs.AssignmentOrders
import ScriptHost.Proofs.Assignments
import ScriptHost.Proofs.BridgedModules
import ScriptHost.Proofs.CachedModules
import ScriptHost.Proofs.Checks
import ScriptHost.Proofs.ClassCalls
import ScriptHost.Proofs.ClassRecords
import ScriptHost.Proofs.Collections
import ScriptHost.Proofs.Conversion
import ScriptHost.Proofs.Decoding
import ScriptHost.Proofs.DialectRuns
import ScriptHost.Proofs.EditedDocuments
import ScriptHost.Proofs.EndlessStructures
import ScriptHost.Proofs.EndlessTexts
import ScriptHost.Proofs.Evictions
import ScriptHost.Proofs.ExactValues
import ScriptHost.Proofs.FieldTables
import ScriptHost.Proofs.FileWalks
import ScriptHost.Proofs.FunctionHandles
import ScriptHost.Proofs.GlobalTables
import ScriptHost.Proofs.Growth
import ScriptHost.Proofs.HostConversions
import ScriptHost.Proofs.HostGraphs
import ScriptHost.Proofs.HostRuns
import ScriptHost.Proofs.IndexPrecedence
import ScriptHost.Proofs.Installation
import ScriptHost.Proofs.IntegralNumbers
import ScriptHost.Proofs.Interpreted
import ScriptHost.Proofs.InterpretedBoundary
import ScriptHost.Proofs.InterpretedCalls
import ScriptHost.Proofs.InterpretedEvaluation
import ScriptHost.Proofs.InterpretedLibrary
import ScriptHost.Proofs.InterpretedOperators
import ScriptHost.Proofs.IntroducedGlobals
import ScriptHost.Proofs.InvalidSettings
import ScriptHost.Proofs.JsonTexts
import ScriptHost.Proofs.KeyKnots
import ScriptHost.Proofs.KeyPaths
import ScriptHost.Proofs.Lookups
import ScriptHost.Proofs.MapKeys
import ScriptHost.Proofs.Marks
import ScriptHost.Proofs.Marshalling
import ScriptHost.Proofs.MethodCalls
import ScriptHost.Proofs.Mirroring
import ScriptHost.Proofs.ModuleAnswers
import ScriptHost.Proofs.ModuleBodies
import ScriptHost.Proofs.ModuleCalls
import ScriptHost.Proofs.ModuleDepth
import ScriptHost.Proofs.ModuleEntries
import ScriptHost.Proofs.ModuleGraphs
import ScriptHost.Proofs.ModuleHistories
import ScriptHost.Proofs.ModuleLoading
import ScriptHost.Proofs.ModulePrograms
import ScriptHost.Proofs.ModuleRuns
import ScriptHost.Proofs.ModuleSearch
import ScriptHost.Proofs.ModuleTexts
import ScriptHost.Proofs.ModuleTrails
import ScriptHost.Proofs.NamespaceNames
import ScriptHost.Proofs.NativeCalls
import ScriptHost.Proofs.NewInterpreters
import ScriptHost.Proofs.NormalForm
import ScriptHost.Proofs.Outcome
import ScriptHost.Proofs.PathSpellings
import ScriptHost.Proofs.Placeholders
import ScriptHost.Proofs.PrivateCrossings
import ScriptHost.Proofs.PrivateFields
import ScriptHost.Proofs.ProxyCreation
import ScriptHost.Proofs.ProxyRuns
import ScriptHost.Proofs.PublishedNames
import ScriptHost.Proofs.Rebuilding
import ScriptHost.Proofs.RegistryViews
import ScriptHost.Proofs.Replicas
import ScriptHost.Proofs.RoundTrip
import ScriptHost.Proofs.SavedSettings
import ScriptHost.Proofs.Scripted
import ScriptHost.Proofs.SearchPaths
import ScriptHost.Proofs.Sessions
import ScriptHost.Proofs.SinglePrecision
import ScriptHost.Proofs.Snapshots
import ScriptHost.Proofs.StoreRuns
import ScriptHost.Proofs.StoredAgain
import ScriptHost.Proofs.TableMap
import ScriptHost.Proofs.Texts
import ScriptHost.Proofs.TomlLines
import ScriptHost.Proofs.TomlSections
import ScriptHost.Proofs.TomlTexts
import ScriptHost.Proofs.TypedValues
import ScriptHost.Proofs.Unfolding
import ScriptHost.Sample.Catalogue
import ScriptHost.Sample.Functions
import ScriptHost.Sample.Gauge
import ScriptHost.Sample.Loader
import ScriptHost.Sample.Probe
import ScriptHost.Script.Evaluation
import ScriptHost.Script.Grammar
import ScriptHost.Script.Interpreter
import ScriptHost.Script.Library
import ScriptHost.Script.Machine
import ScriptHost.Script.Operators
import ScriptHost.Script.Program
import ScriptHost.Script.Table
import ScriptHost.Script.Token
import ScriptHost.Script.Value
import ScriptHost.Settings.Basic
import ScriptHost.Settings.Discovery
import ScriptHost.Settings.Document
import ScriptHost.Settings.Json
import ScriptHost.Settings.Toml.Printer
import ScriptHost.Settings.Toml.Reader
import ScriptHost.Settings.Validity
import ScriptHost.Text.Parts
import ScriptHost.Text.Quoted
import ScriptHost.Text.Unprintable
import ScriptHost.Text.Utf8
