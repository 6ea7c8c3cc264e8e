import LambdaDeploy.Archive.Crc32
import LambdaDeploy.Archive.Library
import LambdaDeploy.Archive.Reader
import LambdaDeploy.Archive.Zip
import LambdaDeploy.BuildError
import LambdaDeploy.CommandLine.Arguments
import LambdaDeploy.CommandLine.Session
import LambdaDeploy.Deployment.Command
import LambdaDeploy.Deployment.Machine
import LambdaDeploy.Deployment.Packaging
import LambdaDeploy.Deployment.Terminal
import LambdaDeploy.Diagnostic
import LambdaDeploy.FileSystem.Basic
import LambdaDeploy.FileSystem.Canonical
import LambdaDeploy.FileSystem.Error
import LambdaDeploy.FileSystem.Operation
import LambdaDeploy.FileSystem.Path
import LambdaDeploy.FileSystem.Store
import LambdaDeploy.FileSystem.Walk
import LambdaDeploy.Handler.EntryPoint
import LambdaDeploy.Handler.Proxy
import LambdaDeploy.Handler.Registration
import LambdaDeploy.Handler.Signature
import LambdaDeploy.Main
import LambdaDeploy.Outline.Declaration
import LambdaDeploy.Outline.Document
import LambdaDeploy.Outline.Fault
import LambdaDeploy.Outline.Header
import LambdaDeploy.Outline.Layout
import LambdaDeploy.Outline.Reader
import LambdaDeploy.Outline.TypeText
import LambdaDeploy.Package
import LambdaDeploy.Program.Basic
import LambdaDeploy.Program.Edit
import LambdaDeploy.Program.Generated
import LambdaDeploy.Program.Node
import LambdaDeploy.Program.Rendering
import LambdaDeploy.Program.Scope
import LambdaDeploy.Program.Visit
import LambdaDeploy.Proofs.Archive.ReadBack
import LambdaDeploy.Proofs.CommandLine.Omitting
import LambdaDeploy.Proofs.CommandLine.Phases
import LambdaDeploy.Proofs.Deployment.Archiving
import LambdaDeploy.Proofs.Deployment.BaseName
import LambdaDeploy.Proofs.Deployment.Delivery
import LambdaDeploy.Proofs.Deployment.Failing
import LambdaDeploy.Proofs.Deployment.Showing
import LambdaDeploy.Proofs.FileSystem.Arrival
import LambdaDeploy.Proofs.FileSystem.Direct
import LambdaDeploy.Proofs.FileSystem.LastName
import LambdaDeploy.Proofs.FileSystem.Naming
import LambdaDeploy.Proofs.FileSystem.Standing
import LambdaDeploy.Proofs.FileSystem.Walking
import LambdaDeploy.Proofs.Handler.Accounting
import LambdaDeploy.Proofs.Handler.Agreement
import LambdaDeploy.Proofs.Handler.DispatcherImport
import LambdaDeploy.Proofs.Handler.EntryPointBody
import LambdaDeploy.Proofs.Handler.Failing
import LambdaDeploy.Proofs.Handler.Increments
import LambdaDeploy.Proofs.Handler.Linking
import LambdaDeploy.Proofs.Handler.Marked
import LambdaDeploy.Proofs.Handler.Outcome
import LambdaDeploy.Proofs.Handler.Placement
import LambdaDeploy.Proofs.Handler.Recording
import LambdaDeploy.Proofs.Handler.Rerun
import LambdaDeploy.Proofs.Handler.SignatureRules
import LambdaDeploy.Proofs.Handler.Synthesis
import LambdaDeploy.Proofs.Handler.Unrelated
import LambdaDeploy.Proofs.Handler.UserCode
import LambdaDeploy.Proofs.Handler.Wiring
import LambdaDeploy.Proofs.Outline.Comments
import LambdaDeploy.Proofs.Outline.DefaultValues
import LambdaDeploy.Proofs.Outline.ErrorLines
import LambdaDeploy.Proofs.Outline.Extent
import LambdaDeploy.Proofs.Outline.Interleaving
import LambdaDeploy.Proofs.Outline.Locations
import LambdaDeploy.Proofs.Outline.ParamExpression
import LambdaDeploy.Proofs.Outline.ParamReading
import LambdaDeploy.Proofs.Outline.Passage
import LambdaDeploy.Proofs.Outline.Printable
import LambdaDeploy.Proofs.Outline.PrintedDocument
import LambdaDeploy.Proofs.Outline.PrintedFunction
import LambdaDeploy.Proofs.Outline.PrintedHeader
import LambdaDeploy.Proofs.Outline.PrintedParams
import LambdaDeploy.Proofs.Outline.PrintedScope
import LambdaDeploy.Proofs.Outline.PrintedType
import LambdaDeploy.Proofs.Outline.RecordText
import LambdaDeploy.Proofs.Outline.Renumbering
import LambdaDeploy.Proofs.Outline.RoundTrip
import LambdaDeploy.Proofs.Outline.SignatureTypes
import LambdaDeploy.Proofs.Outline.TypeExpression
import LambdaDeploy.Proofs.Outline.TypeForm
import LambdaDeploy.Proofs.Outline.TypeReading
import LambdaDeploy.Proofs.Program.Arena
import LambdaDeploy.Proofs.Program.Atomicity
import LambdaDeploy.Proofs.Program.Built
import LambdaDeploy.Proofs.Program.Consistency
import LambdaDeploy.Proofs.Program.Editing
import LambdaDeploy.Proofs.Program.Holding
import LambdaDeploy.Proofs.Program.InPlace
import LambdaDeploy.Proofs.Program.LastDocument
import LambdaDeploy.Proofs.Program.Lookup
import LambdaDeploy.Proofs.Program.Qualifying
import LambdaDeploy.Proofs.Program.SourceText
import LambdaDeploy.Proofs.Program.Transcript
import LambdaDeploy.Proofs.Program.Visiting
import LambdaDeploy.Proofs.Steps
import LambdaDeploy.Proofs.Text.Braces
import LambdaDeploy.Proofs.Text.Counting
import LambdaDeploy.Proofs.Text.Cutting
import LambdaDeploy.Proofs.Text.Dedenting
import LambdaDeploy.Proofs.Text.Expression
import LambdaDeploy.Proofs.Text.Identifier
import LambdaDeploy.Proofs.Text.Indentation
import LambdaDeploy.Proofs.Text.LineEnds
import LambdaDeploy.Proofs.Text.Lines
import LambdaDeploy.Proofs.Text.Literal
import LambdaDeploy.Proofs.Text.Nesting
import LambdaDeploy.Proofs.Text.Parts
import LambdaDeploy.Proofs.Text.Scanning
import LambdaDeploy.Proofs.Ty.Flattening
import LambdaDeploy.Proofs.Ty.Leaves
import LambdaDeploy.Proofs.Ty.Normal
import LambdaDeploy.Settings
import LambdaDeploy.Text.Blank
import LambdaDeploy.Text.Bracket
import LambdaDeploy.Text.Cut
import LambdaDeploy.Text.Indent
import LambdaDeploy.Text.Lines
import LambdaDeploy.Text.Numeral
import LambdaDeploy.Text.Quoted
import LambdaDeploy.Text.Utf8
import LambdaDeploy.Ty
