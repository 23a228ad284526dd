import Stencil.Automation
import Stencil.Browser
import Stencil.Calendar.Date
import Stencil.Calendar.Format
import Stencil.Catalog
import Stencil.CommandLine.Grammar
import Stencil.CommandLine.Templates
import Stencil.CommandLine.Variables
import Stencil.Context
import Stencil.Custom
import Stencil.Decimal.Places
import Stencil.Decimal.Shortest
import Stencil.Desktop
import Stencil.Dict
import Stencil.Directive
import Stencil.Directives.Desktop
import Stencil.Directives.Flow
import Stencil.Directives.HostCall
import Stencil.Directives.Interactive
import Stencil.Directives.Meta
import Stencil.Directives.Operand
import Stencil.Directives.Readers
import Stencil.Directives.Script
import Stencil.Directives.System
import Stencil.Directives.Variables
import Stencil.Directives.Weather
import Stencil.Engine
import Stencil.Engine.Scripted
import Stencil.Environment
import Stencil.Failure
import Stencil.Files.Tree
import Stencil.Flow
import Stencil.Json.Parser
import Stencil.Json.Printer
import Stencil.Json.Value
import Stencil.Machine
import Stencil.Main
import Stencil.Markup.Html
import Stencil.Markup.Markdown
import Stencil.Process.Basic
import Stencil.Program.Report
import Stencil.Program.Templates
import Stencil.Program.Tools
import Stencil.Program.Variables
import Stencil.Proofs.Automation
import Stencil.Proofs.Branching
import Stencil.Proofs.Catalog
import Stencil.Proofs.Custom
import Stencil.Proofs.Dict
import Stencil.Proofs.Directives.Exchanges
import Stencil.Proofs.Directives.Network
import Stencil.Proofs.Directives.StoreCalls
import Stencil.Proofs.Directives.Variables
import Stencil.Proofs.Engine.Addressing
import Stencil.Proofs.Engine.Attribution
import Stencil.Proofs.Engine.BraceClean
import Stencil.Proofs.Engine.Broadcast
import Stencil.Proofs.Engine.Choices
import Stencil.Proofs.Engine.Fields
import Stencil.Proofs.Engine.InOrder
import Stencil.Proofs.Engine.InStep
import Stencil.Proofs.Engine.Invariants
import Stencil.Proofs.Engine.Journal
import Stencil.Proofs.Engine.Lookups
import Stencil.Proofs.Engine.Placeholders
import Stencil.Proofs.Engine.Progress
import Stencil.Proofs.Engine.Recall
import Stencil.Proofs.Engine.Reevaluation
import Stencil.Proofs.Engine.Replay
import Stencil.Proofs.Engine.SeededText
import Stencil.Proofs.Engine.Seeds
import Stencil.Proofs.Engine.Selection
import Stencil.Proofs.Engine.SinglePass
import Stencil.Proofs.Engine.Splices
import Stencil.Proofs.Engine.Stepping
import Stencil.Proofs.Engine.Tracking
import Stencil.Proofs.Engine.Turns
import Stencil.Proofs.Engine.VariableTemplates
import Stencil.Proofs.Flow
import Stencil.Proofs.Json.Reading
import Stencil.Proofs.Paths
import Stencil.Proofs.Process
import Stencil.Proofs.Sandbox.Frame
import Stencil.Proofs.Settings
import Stencil.Proofs.Store.Backends
import Stencil.Proofs.Store.Contents
import Stencil.Proofs.Store.Counters
import Stencil.Proofs.Store.Failures
import Stencil.Proofs.Store.Handles
import Stencil.Proofs.Store.History
import Stencil.Proofs.Store.Leaving
import Stencil.Proofs.Store.Operations
import Stencil.Proofs.Store.Runs
import Stencil.Proofs.Template.Closing
import Stencil.Proofs.Template.Composing
import Stencil.Proofs.Template.Cover
import Stencil.Proofs.Template.Edits
import Stencil.Proofs.Template.Filling
import Stencil.Proofs.Template.Layout
import Stencil.Proofs.Template.Lookups
import Stencil.Proofs.Template.Nesting
import Stencil.Proofs.Template.NextToken
import Stencil.Proofs.Template.Opening
import Stencil.Proofs.Template.RawText
import Stencil.Proofs.Template.Recognition
import Stencil.Proofs.Template.Splicing
import Stencil.Proofs.Template.Unnested
import Stencil.Proofs.Text.Integer
import Stencil.Proofs.Text.Parts
import Stencil.Proofs.Text.Utf8
import Stencil.Sandbox.Eval
import Stencil.Sandbox.Expr
import Stencil.Sandbox.Lexeme
import Stencil.Sandbox.Library
import Stencil.Sandbox.Operation
import Stencil.Sandbox.Reader
import Stencil.Sandbox.Running
import Stencil.Sandbox.Value
import Stencil.Scripts
import Stencil.Settings
import Stencil.Settings.Document
import Stencil.Settings.Loading
import Stencil.Settings.StorePath
import Stencil.Shell.Arithmetic
import Stencil.Shell.Command
import Stencil.Shell.Expansion
import Stencil.Shell.FileTools
import Stencil.Shell.Pattern
import Stencil.Shell.Printf
import Stencil.Shell.Reader
import Stencil.Shell.Regex
import Stencil.Shell.Run
import Stencil.Shell.Session
import Stencil.Shell.TextTools
import Stencil.Shell.Utility
import Stencil.Store.Backend
import Stencil.Store.File
import Stencil.Store.Variables
import Stencil.Template.Lookup
import Stencil.Template.Scanner
import Stencil.Template.Splice
import Stencil.Template.Token
import Stencil.Text.Blank
import Stencil.Text.Bytes
import Stencil.Text.Case
import Stencil.Text.Integer
import Stencil.Text.Search
import Stencil.Text.Utf8
import Stencil.Web
import Stencil.Yaml.Node
import Stencil.Yaml.Reader
import Stencil.Yaml.Scalar
import Stencil.Yaml.Writer
