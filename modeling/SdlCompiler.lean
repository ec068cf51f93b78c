import SdlCompiler.Text.Blank
import SdlCompiler.Text.Lines
import SdlCompiler.Text.Alphanumeric
import SdlCompiler.Text.Bytes
import SdlCompiler.Text.BlockString
import SdlCompiler.Text.Quoted
import SdlCompiler.Numeric.Integer
import SdlCompiler.Numeric.Binary64
import SdlCompiler.Numeric.Decimal
import SdlCompiler.Numeric.Fixed
import SdlCompiler.Numeric.Shortest
import SdlCompiler.Value
import SdlCompiler.Location
import SdlCompiler.Definition
import SdlCompiler.Document.Basic
import SdlCompiler.Schema.Error
import SdlCompiler.Document.Token
import SdlCompiler.Document.IntegerScan
import SdlCompiler.Document.Grammar
import SdlCompiler.Schema.Basic
import SdlCompiler.Schema.Text
import SdlCompiler.Schema.Names
import SdlCompiler.Schema.Resolve
import SdlCompiler.Schema.Compile
import SdlCompiler.Schema.Session
import SdlCompiler.Wire.Varint
import SdlCompiler.Wire.Message
import SdlCompiler.Wire.Nesting
import SdlCompiler.Wire.Value
import SdlCompiler.Wire.Descriptor
import SdlCompiler.Wire.Protocol
import SdlCompiler.Wire.OfSchema
import SdlCompiler.Text.Split
import SdlCompiler.Path
import SdlCompiler.Echo.Sdl
import SdlCompiler.Echo.Generate
import SdlCompiler.SystemError
import SdlCompiler.Plugin.Exchange
import SdlCompiler.Expression.Basic
import SdlCompiler.Expression.Escape
import SdlCompiler.Expression.Reader
import SdlCompiler.Expression.SetReader
import SdlCompiler.Expression.Support
import SdlCompiler.FileTree.Basic
import SdlCompiler.FileTree.Access
import SdlCompiler.Output.Insertion
import SdlCompiler.Output.Apply
import SdlCompiler.Text.Utf8
import SdlCompiler.Plugin.ExitStatus
import SdlCompiler.Plugin.Host
import SdlCompiler.Plugin.Run
import SdlCompiler.Pattern.Basic
import SdlCompiler.Pattern.Expand
import SdlCompiler.Compiler.Error
import SdlCompiler.Compiler.Run
import SdlCompiler.Command.PluginFlag
import SdlCompiler.Command.Arguments
import SdlCompiler.Command.LogLevel
import SdlCompiler.Command.LogDirective
import SdlCompiler.Command.LogFilter
import SdlCompiler.Command.Configure
import SdlCompiler.Command.Execute
import SdlCompiler.Echo.Program
import SdlCompiler.Main
import SdlCompiler.Proofs.Outcome
import SdlCompiler.Proofs.Definition
import SdlCompiler.Proofs.Text.Bytes
import SdlCompiler.Proofs.Text.BlockString
import SdlCompiler.Proofs.Text.Rewriting
import SdlCompiler.Proofs.Text.Split
import SdlCompiler.Proofs.Numeric.Rounding
import SdlCompiler.Proofs.Numeric.Decimals
import SdlCompiler.Proofs.Numeric.Shortest
import SdlCompiler.Proofs.Numeric.Fixed
import SdlCompiler.Proofs.Numeric.Stability
import SdlCompiler.Proofs.Document.Scanning
import SdlCompiler.Proofs.Document.Cursor
import SdlCompiler.Proofs.Document.Lexing
import SdlCompiler.Proofs.Document.BlockStrings
import SdlCompiler.Proofs.Document.Rules
import SdlCompiler.Proofs.Document.Written
import SdlCompiler.Proofs.Document.Locations
import SdlCompiler.Proofs.Document.Integers
import SdlCompiler.Proofs.Schema.Parts
import SdlCompiler.Proofs.Schema.Registration
import SdlCompiler.Proofs.Schema.Population
import SdlCompiler.Proofs.Schema.Resolution
import SdlCompiler.Proofs.Schema.Building
import SdlCompiler.Proofs.Schema.Integrity
import SdlCompiler.Proofs.Schema.Acceptance
import SdlCompiler.Proofs.Schema.Faults
import SdlCompiler.Proofs.Schema.Precedence
import SdlCompiler.Proofs.Schema.Restating
import SdlCompiler.Proofs.Schema.Soundness
import SdlCompiler.Proofs.Schema.Roots
import SdlCompiler.Proofs.Wire.Records
import SdlCompiler.Proofs.Wire.Merging
import SdlCompiler.Proofs.Wire.Values
import SdlCompiler.Proofs.Wire.RoundTrip
import SdlCompiler.Proofs.Wire.Conversion
import SdlCompiler.Proofs.Wire.Unfolding
import SdlCompiler.Proofs.Echo.Echoed
import SdlCompiler.Proofs.Echo.Descriptions
import SdlCompiler.Proofs.Echo.Tokens
import SdlCompiler.Proofs.Echo.Reading
import SdlCompiler.Proofs.Echo.Recompiling
import SdlCompiler.Proofs.Echo.Idempotence
import SdlCompiler.Proofs.Schema.Order
import SdlCompiler.Proofs.Schema.Parsed
import SdlCompiler.Proofs.Wire.Injectivity
import SdlCompiler.Proofs.Compiler.Course
import SdlCompiler.Proofs.FileTree.Places
import SdlCompiler.Proofs.FileTree.Links
import SdlCompiler.Proofs.FileTree.Growth
import SdlCompiler.Proofs.FileTree.Contents
import SdlCompiler.Proofs.FileTree.Keeping
import SdlCompiler.Proofs.Output.Table
import SdlCompiler.Proofs.Output.Confinement
import SdlCompiler.Proofs.Output.Insertion
import SdlCompiler.Proofs.Output.Commutation
import SdlCompiler.Proofs.Output.Reproducibility
import SdlCompiler.Proofs.Plugin.Agreement
import SdlCompiler.Proofs.Schema.Calls
import SdlCompiler.Proofs.Echo.Rendering
import SdlCompiler.Proofs.Echo.Documentation
import SdlCompiler.Proofs.Echo.Generation
import SdlCompiler.Proofs.Echo.OutputNames
import SdlCompiler.Proofs.Command.Splitting
import SdlCompiler.Proofs.Command.PluginFlags
