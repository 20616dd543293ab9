import EntityModel.Text.Words
import EntityModel.Loading.File
import EntityModel.Source.Registry
import EntityModel.Yaml.Record
import EntityModel.Model.Reverse
import EntityModel.Naming.Type
import EntityModel.Naming.Column
import EntityModel.Naming.Key
import EntityModel.Linking.References
import EntityModel.Linking.Aliases
import EntityModel.Linking.AsDomains
import EntityModel.Linking.PropertyReferences
import EntityModel.Linking.Link
import EntityModel.Store.Basic
import EntityModel.Workspace.FileName
import EntityModel.Disk.Basic
import EntityModel.Settings.Reading
import EntityModel.Generation.LockFile
import EntityModel.Watching.Host
import EntityModel.Text.Bytes
import EntityModel.Proofs.Store.Derived
import EntityModel.Proofs.Store.LoadOrder
import EntityModel.Proofs.Store.References
import EntityModel.Proofs.Watching.Notices
import EntityModel.Proofs.Watching.Sessions
import EntityModel.Proofs.Locality.NamedParts
import EntityModel.Proofs.Linking.Fixpoints
import EntityModel.Proofs.Locality.LinkedParts
import EntityModel.Proofs.Locality.Columns
import EntityModel.Proofs.Locality.Types
import EntityModel.Proofs.Locality.Domains
import EntityModel.Proofs.Watching.Unaffected
import EntityModel.Proofs.Disk.Changes
import EntityModel.Proofs.Generation.Pruning
import EntityModel.Proofs.Generation.Selections
import EntityModel.Proofs.Linking.Outlines
import EntityModel.Proofs.Validation.Repetitions
import EntityModel.Proofs.Linking.ReportPlaces
import EntityModel.Proofs.Validation.Integrity
import EntityModel.Proofs.Store.History
import EntityModel.Proofs.Store.CircularAliases
import EntityModel.Proofs.Store.Expansions
import EntityModel.Proofs.Linking.StalledRounds
import EntityModel.Proofs.Linking.BlockedAliases
import EntityModel.Proofs.Loading.AcceptedFiles
import EntityModel.Proofs.Watching.BatchRuns
import EntityModel.Proofs.Linking.CountedRounds
import EntityModel.Proofs.Store.PropertyNames
import EntityModel.Proofs.Linking.ResolvedOnce
import EntityModel.Proofs.Store.Scoping
import EntityModel.Proofs.Store.AliasTypes
import EntityModel.Proofs.Store.UnusedImports
import EntityModel.Proofs.Store.UseCircles
import EntityModel.Proofs.Store.Inheritance
import EntityModel.Proofs.Naming.ChainDomains
import EntityModel.Proofs.Store.Translations
import EntityModel.Proofs.Store.StaticValues
import EntityModel.Proofs.Generation.Entries
import EntityModel.Proofs.Watching.SeenFiles
import EntityModel.Proofs.Generation.Outputs
import EntityModel.Proofs.Generation.Languages
import EntityModel.Proofs.Watching.Renderings
import EntityModel.Proofs.Store.ReverseAssociations
import EntityModel.Proofs.Store.Trigrams
import EntityModel.Proofs.Store.ParameterOrder
import EntityModel.Proofs.Store.UnusedDomains
import EntityModel.Proofs.Store.Silenced
import EntityModel.Proofs.Loading.Documents
import EntityModel.Proofs.Text.Styles
import EntityModel.Proofs.Text.WordPlaces
import EntityModel.Proofs.Source.NodeBoundaries
import EntityModel.Proofs.Workspace.LoadedFiles
