import Stencil.Decimal.Layout
import Stencil.Text.Blank
import Stencil.Text.Quoted
import Stencil.Text.Slug
import Stencil.Number.Numeral
import Stencil.Table
import Stencil.Json.Reader
import Stencil.Json.Writer
import Stencil.Value.Collection
import Stencil.Token.Lexer
import Stencil.Template.Node
import Stencil.Template.Grammar
import Stencil.Template.Compile
import Stencil.Document.Basic
import Stencil.Scope
import Stencil.Filter
import Stencil.Render.Host
import Stencil.Extension
import Stencil.Render.Operator
import Stencil.Render.Loop
import Stencil.Render.Attribute
import Stencil.Value.Access
import Stencil.Render.Run
import Stencil.Engine.Basic
import Stencil.Render.Eval
import Stencil.Engine.Build
import Stencil.Engine.Render
import Stencil.Toml.Reader
import Stencil.Files.Path
import Stencil.Files.Disk
import Stencil.Files.Memory
import Stencil.Project.Check
import Stencil.Project.Build
import Stencil.CommandLine.Run
import Stencil.Main
import Stencil.Proofs.RoundTrip
import Stencil.Proofs.Nesting
import Stencil.Proofs.Precedence
import Stencil.Proofs.Branches
import Stencil.Proofs.BlockEnds
import Stencil.Proofs.Frames
import Stencil.Proofs.Growth
import Stencil.Proofs.Appending
import Stencil.Proofs.Lines
import Stencil.Proofs.Depth
import Stencil.Proofs.Inlining
import Stencil.Proofs.Allowance
import Stencil.Proofs.References
import Stencil.Proofs.Markup
import Stencil.Proofs.Unambiguous
import Stencil.Proofs.Escaping
import Stencil.Proofs.PlainText
import Stencil.Proofs.Extent
import Stencil.Proofs.Lockstep
import Stencil.Proofs.Lockstep.Lines
import Stencil.Proofs.Lockstep.Rules
import Stencil.Proofs.Lockstep.Levels
import Stencil.Proofs.Comments
import Stencil.Proofs.Layout
import Stencil.Proofs.Parallel
import Stencil.Proofs.Modifiers
import Stencil.Proofs.Shapes
import Stencil.Proofs.Registering
import Stencil.Proofs.Adding
import Stencil.Proofs.Paths
import Stencil.Proofs.Progress
import Stencil.Proofs.Termination
import Stencil.Proofs.AttributeText
import Stencil.Proofs.Spacing
import Stencil.Proofs.Loops
import Stencil.Proofs.Lossless
import Stencil.Proofs.Faults
import Stencil.Proofs.Canonical
import Stencil.Proofs.Joining
import Stencil.Proofs.Excerpts
import Stencil.Proofs.Access
import Stencil.Proofs.Equality
import Stencil.Proofs.Calculating
import Stencil.Proofs.Literals
import Stencil.Proofs.Indexing
import Stencil.Proofs.Bytes
import Stencil.Proofs.Prefixes
import Stencil.Proofs.Conversion
import Stencil.Proofs.Joiners
import Stencil.Proofs.Cutting
import Stencil.Proofs.Slugs
import Stencil.Proofs.History
import Stencil.Proofs.Cycles
import Stencil.Proofs.Calls
import Stencil.Proofs.Balance
