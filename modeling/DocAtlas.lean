import DocAtlas.Agents.Prompt
import DocAtlas.Agents.Registration
import DocAtlas.Agents.Setup
import DocAtlas.Command.Flags
import DocAtlas.Command.Help
import DocAtlas.Command.Program
import DocAtlas.Command.Run
import DocAtlas.Command.Spec
import DocAtlas.Component.Candidate
import DocAtlas.Component.Classifier
import DocAtlas.Component.Contract
import DocAtlas.Component.Documenter
import DocAtlas.Component.Function
import DocAtlas.Component.Markup
import DocAtlas.Component.PropSet
import DocAtlas.Component.ReportJson
import DocAtlas.Component.Run
import DocAtlas.Component.Survey
import DocAtlas.Doc.Block
import DocAtlas.Doc.Tags
import DocAtlas.Edit.Patch
import DocAtlas.Edit.Splice
import DocAtlas.Fault
import DocAtlas.Files.Access
import DocAtlas.Files.Discovery
import DocAtlas.Files.Disk
import DocAtlas.Files.FileCache
import DocAtlas.Files.FileFault
import DocAtlas.Files.Glob
import DocAtlas.Files.Ignore
import DocAtlas.Files.OsError
import DocAtlas.Files.Path
import DocAtlas.Files.Renaming
import DocAtlas.Json.Bytes
import DocAtlas.Json.Decode
import DocAtlas.Json.Float
import DocAtlas.Json.Reader
import DocAtlas.Json.Sorted
import DocAtlas.Json.Value
import DocAtlas.Json.Writer
import DocAtlas.Knowledge.Archive
import DocAtlas.Knowledge.Base
import DocAtlas.Knowledge.BaseJson
import DocAtlas.Knowledge.Calls
import DocAtlas.Knowledge.Extract
import DocAtlas.Knowledge.Facts
import DocAtlas.Knowledge.FactsJson
import DocAtlas.Knowledge.FactsReader
import DocAtlas.Knowledge.Generate
import DocAtlas.Knowledge.Modules
import DocAtlas.Knowledge.RunStamp
import DocAtlas.Knowledge.Saving
import DocAtlas.Knowledge.Store
import DocAtlas.Knowledge.Symbols
import DocAtlas.Knowledge.View
import DocAtlas.Knowledge.Watch
import DocAtlas.Log.Line
import DocAtlas.Log.Record
import DocAtlas.Main
import DocAtlas.Number.Binary64
import DocAtlas.Number.Shortest
import DocAtlas.Product
import DocAtlas.Proofs.Tree.Nodes
import DocAtlas.Project.Load
import DocAtlas.Project.Settings
import DocAtlas.Project.Template
import DocAtlas.Report.Metrics
import DocAtlas.Report.Summary
import DocAtlas.Server.CallLog
import DocAtlas.Server.Rpc
import DocAtlas.Server.Session
import DocAtlas.Server.Tool
import DocAtlas.Source.Grammar
import DocAtlas.Source.ParseFault
import DocAtlas.Source.Parsers
import DocAtlas.Source.Recorded
import DocAtlas.Text.Base64
import DocAtlas.Text.Basic
import DocAtlas.Text.Blank
import DocAtlas.Text.Lower
import DocAtlas.Text.Printable
import DocAtlas.Text.Quoted
import DocAtlas.Text.Regex
import DocAtlas.Text.Rune
import DocAtlas.Text.Table
import DocAtlas.Time.Calendar
import DocAtlas.Time.Instant
import DocAtlas.Tree.Cursor
import DocAtlas.Tree.Node
import DocAtlas.Tree.Query
import DocAtlas.Tree.Shape
import DocAtlas.Yaml.Node
import DocAtlas.Yaml.Place
import DocAtlas.Yaml.Record
import DocAtlas.Yaml.Resolve
import DocAtlas.Yaml.Scalar
import DocAtlas.Yaml.Token
import DocAtlas.Yaml.Tokens
import DocAtlas.Proofs.Component.Meaning
import DocAtlas.Proofs.Component.Wrappers
import DocAtlas.Proofs.Component.Ledger
import DocAtlas.Proofs.Component.Blocks
import DocAtlas.Proofs.Doc.Reading
import DocAtlas.Proofs.Order.Sorting
import DocAtlas.Proofs.Edit.Splicing
import DocAtlas.Proofs.Tree.Woven
import DocAtlas.Proofs.Component.Alike
import DocAtlas.Proofs.Tree.Commented
import DocAtlas.Proofs.Tree.Matching
import DocAtlas.Proofs.Component.Commenting
import DocAtlas.Proofs.Tree.Fitting
import DocAtlas.Proofs.Component.Placement
import DocAtlas.Proofs.Component.Regrowth
import DocAtlas.Proofs.Component.Counterparts
import DocAtlas.Proofs.Component.Settling
import DocAtlas.Proofs.Component.Nesting
import DocAtlas.Proofs.Component.Inference
import DocAtlas.Proofs.Files.Paths
import DocAtlas.Proofs.Files.Trees
import DocAtlas.Proofs.Files.Visits
import DocAtlas.Proofs.Component.Treating
import DocAtlas.Proofs.Component.Accounting
import DocAtlas.Proofs.Edit.Surviving
import DocAtlas.Proofs.Component.DryRun
import DocAtlas.Proofs.Text.Tables
import DocAtlas.Proofs.Text.Runes
import DocAtlas.Proofs.Files.Resolving
import DocAtlas.Proofs.Files.Selection
import DocAtlas.Proofs.Knowledge.Watching
import DocAtlas.Proofs.Knowledge.Loading
import DocAtlas.Proofs.Knowledge.Answers
import DocAtlas.Proofs.Files.Lines
import DocAtlas.Proofs.Files.Caching
import DocAtlas.Proofs.Knowledge.Snippets
import DocAtlas.Proofs.Json.Strings
import DocAtlas.Proofs.Json.Numbers
import DocAtlas.Proofs.Json.Documents
import DocAtlas.Proofs.Json.Records
import DocAtlas.Proofs.Time.Instants
import DocAtlas.Proofs.Knowledge.Documents
import DocAtlas.Proofs.Files.Replacing
import DocAtlas.Proofs.Knowledge.Archiving
import DocAtlas.Proofs.Knowledge.Rereading
import DocAtlas.Proofs.Knowledge.Tallies
import DocAtlas.Proofs.Files.Literal
import DocAtlas.Proofs.Knowledge.Excluding
import DocAtlas.Proofs.Tree.Respelling
import DocAtlas.Proofs.Knowledge.Commenting
import DocAtlas.Proofs.Text.Trimming
import DocAtlas.Proofs.Doc.RoundTrip
import DocAtlas.Proofs.Edit.Replaying
import DocAtlas.Proofs.Component.Marking
import DocAtlas.Proofs.Knowledge.Contexts
import DocAtlas.Proofs.Component.Unwrapping
import DocAtlas.Proofs.Component.Anchoring
import DocAtlas.Proofs.Server.Rooting
import DocAtlas.Proofs.Files.Restoring
import DocAtlas.Proofs.Knowledge.Drafting
import DocAtlas.Proofs.Knowledge.Persisting
import DocAtlas.Proofs.Edit.OnePass
import DocAtlas.Proofs.Edit.Aligning
import DocAtlas.Proofs.Tree.Querying
import DocAtlas.Proofs.Knowledge.Listing
import DocAtlas.Proofs.Knowledge.Exporting
import DocAtlas.Proofs.Files.Ranges
import DocAtlas.Proofs.Files.Chosen
import DocAtlas.Proofs.Knowledge.Gathering
import DocAtlas.Proofs.Knowledge.Naming
import DocAtlas.Proofs.Knowledge.Extents
import DocAtlas.Proofs.Files.Bookkeeping
import DocAtlas.Proofs.Json.Values
import DocAtlas.Proofs.Json.Floats
import DocAtlas.Proofs.Agents.Registering
import DocAtlas.Proofs.Json.Meaning
import DocAtlas.Proofs.Number.Rounding
import DocAtlas.Proofs.Number.Shortest
import DocAtlas.Proofs.Number.Wholes
import DocAtlas.Proofs.Agents.Preserving
import DocAtlas.Proofs.Files.Gone
import DocAtlas.Proofs.Knowledge.Vanishing
import DocAtlas.Proofs.Server.Reducing
import DocAtlas.Proofs.Source.Faults
