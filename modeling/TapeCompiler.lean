import TapeCompiler.Build.OutputKind
import TapeCompiler.Build.Paths
import TapeCompiler.Build.Run
import TapeCompiler.Build.Toolchain
import TapeCompiler.CommandLine.Compile
import TapeCompiler.CommandLine.Doctor
import TapeCompiler.CommandLine.Dump
import TapeCompiler.CommandLine.Error
import TapeCompiler.CommandLine.Flag
import TapeCompiler.CommandLine.Interact
import TapeCompiler.CommandLine.Options
import TapeCompiler.CommandLine.Request
import TapeCompiler.CommandLine.Run
import TapeCompiler.Config.Decode
import TapeCompiler.Config.Load
import TapeCompiler.Config.Settings
import TapeCompiler.Document.Basic
import TapeCompiler.Document.Json
import TapeCompiler.Document.Yaml
import TapeCompiler.File.Error
import TapeCompiler.File.Path
import TapeCompiler.File.Tree
import TapeCompiler.Host.Basic
import TapeCompiler.Host.Expansion
import TapeCompiler.Host.Identifier
import TapeCompiler.Host.ScriptedTool
import TapeCompiler.Host.Search
import TapeCompiler.Host.World
import TapeCompiler.Log
import TapeCompiler.Main
import TapeCompiler.Program.Basic
import TapeCompiler.Program.Compact
import TapeCompiler.Program.Document
import TapeCompiler.Program.Outline
import TapeCompiler.Program.Parser
import TapeCompiler.Program.Statistics
import TapeCompiler.Program.Walk
import TapeCompiler.Proofs.Agreement
import TapeCompiler.Proofs.AssemblySimulation
import TapeCompiler.Proofs.AssemblyText
import TapeCompiler.Proofs.Brackets
import TapeCompiler.Proofs.BuildFiles
import TapeCompiler.Proofs.CSimulation
import TapeCompiler.Proofs.CStatements
import TapeCompiler.Proofs.CText
import TapeCompiler.Proofs.CompactForm
import TapeCompiler.Proofs.Completion
import TapeCompiler.Proofs.Concatenation
import TapeCompiler.Proofs.Decoding
import TapeCompiler.Proofs.Discovery
import TapeCompiler.Proofs.EntryReading
import TapeCompiler.Proofs.ExecutableBuild
import TapeCompiler.Proofs.FileTree
import TapeCompiler.Proofs.FlagOverrides
import TapeCompiler.Proofs.Flow
import TapeCompiler.Proofs.JsonDocument
import TapeCompiler.Proofs.JsonGrammar
import TapeCompiler.Proofs.LabelWiring
import TapeCompiler.Proofs.Lexeme
import TapeCompiler.Proofs.LineDecoder
import TapeCompiler.Proofs.Literals
import TapeCompiler.Proofs.LookAhead
import TapeCompiler.Proofs.Lowering
import TapeCompiler.Proofs.Machine
import TapeCompiler.Proofs.Parsing
import TapeCompiler.Proofs.Paths
import TapeCompiler.Proofs.Reference
import TapeCompiler.Proofs.Scanning
import TapeCompiler.Proofs.Scheme
import TapeCompiler.Proofs.Shortening
import TapeCompiler.Proofs.Splitting
import TapeCompiler.Proofs.Statistics
import TapeCompiler.Proofs.StreamParsing
import TapeCompiler.Proofs.Tape
import TapeCompiler.Proofs.TemporaryFiles
import TapeCompiler.Proofs.TextBuild
import TapeCompiler.Proofs.TokenPositions
import TapeCompiler.Proofs.TokenStream
import TapeCompiler.Proofs.ToolRuns
import TapeCompiler.Proofs.Transcript
import TapeCompiler.Proofs.Traversals
import TapeCompiler.Proofs.Tree
import TapeCompiler.Proofs.TreeDump
import TapeCompiler.Proofs.TreePositions
import TapeCompiler.Proofs.UsableSettings
import TapeCompiler.Proofs.WriteFailures
import TapeCompiler.Session.Basic
import TapeCompiler.Session.Command
import TapeCompiler.Session.Entry
import TapeCompiler.Session.History
import TapeCompiler.Session.Line
import TapeCompiler.Source.Position
import TapeCompiler.Source.Reader
import TapeCompiler.Source.Scanner
import TapeCompiler.Source.Token
import TapeCompiler.Target.Assembly
import TapeCompiler.Target.Basic
import TapeCompiler.Target.C
import TapeCompiler.Target.Choice
import TapeCompiler.Target.Emission
import TapeCompiler.Target.Label
import TapeCompiler.Target.Layout
import TapeCompiler.Target.Lowering
import TapeCompiler.Text.Blank
import TapeCompiler.Text.Bytes
import TapeCompiler.Text.Column
import TapeCompiler.Text.Ellipsis
import TapeCompiler.Text.Glyph
import TapeCompiler.Text.Letter
import TapeCompiler.Text.Printable
import TapeCompiler.Text.Quoted
import TapeCompiler.Text.Style
import TapeCompiler.Text.Styled
import TapeCompiler.Text.Units
import TapeCompiler.Toml.Grammar
import TapeCompiler.Toml.Moment
import TapeCompiler.Toml.Number
import TapeCompiler.Toml.Table
import TapeCompiler.Toml.Text
import TapeCompiler.Yaml.Cursor
import TapeCompiler.Yaml.Node
import TapeCompiler.Yaml.Scalar
import TapeCompiler.Yaml.Tag
import TapeCompiler.Yaml.Token
