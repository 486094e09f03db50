import StaticSite.Main
import StaticSite.Proofs.Build.Accounting
import StaticSite.Proofs.Build.Compilation
import StaticSite.Proofs.Build.IndexFiles
import StaticSite.Proofs.Build.Interleaving
import StaticSite.Proofs.Build.Rebuilding
import StaticSite.Proofs.Build.Reports
import StaticSite.Proofs.Build.Scripts
import StaticSite.Proofs.Build.SharedOutputs
import StaticSite.Proofs.Command.Deletion
import StaticSite.Proofs.Compile.Assignment
import StaticSite.Proofs.Compile.Module
import StaticSite.Proofs.Compile.Schedules
import StaticSite.Proofs.Compile.Twins
import StaticSite.Proofs.Component.BlockComments
import StaticSite.Proofs.Component.ExportHistory
import StaticSite.Proofs.Component.Insertions
import StaticSite.Proofs.Component.Rebasing
import StaticSite.Proofs.Component.Repetition
import StaticSite.Proofs.Component.Resolution
import StaticSite.Proofs.Document.CodeFences
import StaticSite.Proofs.Document.Decoding
import StaticSite.Proofs.Document.Delimiters
import StaticSite.Proofs.Document.Expressions
import StaticSite.Proofs.Document.LineEndings
import StaticSite.Proofs.Document.Nesting
import StaticSite.Proofs.Document.Printing
import StaticSite.Proofs.Document.Properties
import StaticSite.Proofs.Document.Targets
import StaticSite.Proofs.EsModule.ClauseDefaults
import StaticSite.Proofs.EsModule.Literals
import StaticSite.Proofs.Page.Head
import StaticSite.Proofs.Url.Specifiers
