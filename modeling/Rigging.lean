import Rigging.CommandLine.Command
import Rigging.Console
import Rigging.Entity.Record
import Rigging.Main
import Rigging.Proofs.Agreement
import Rigging.Proofs.Declaration.Linked
import Rigging.Proofs.Doc.Enclosed
import Rigging.Proofs.Doc.Image
import Rigging.Proofs.Project.Again
import Rigging.Proofs.Request
import Rigging.Session
import Rigging.Proofs.Session
import Rigging.Proofs.Project.Hook
import Rigging.Proofs.Entity.Extract
import Rigging.Proofs.Project.Load
import Rigging.Proofs.TypeExpr.Phrase
import Rigging.Proofs.Entity.Types
import Rigging.Proofs.Entity.Faults
import Rigging.Proofs.Declaration.Promise
import Rigging.Proofs.Registry.Clash
import Rigging.Proofs.Doc.Continuation
import Rigging.Proofs.Doc.Words
import Rigging.Proofs.Doc.Layout
import Rigging.Proofs.Admission
import Rigging.Proofs.Project.Allowed
import Rigging.Proofs.Project.Found
import Rigging.Proofs.Project.Missing
import Rigging.Proofs.Declaration.Legal
import Rigging.Proofs.Project.Slots
import Rigging.Proofs.Declaration.Collected
import Rigging.Proofs.Path.Relative
import Rigging.Proofs.Text.Utf8
import Rigging.Proofs.Json.ReadBack
import Rigging.Proofs.Project.Editor
import Rigging.Proofs.Entity.Spelling
import Rigging.Proofs.Declaration.Parameters
import Rigging.Proofs.Doc.ParamName
