import LoadPlan.Build
import LoadPlan.Console.Arguments
import LoadPlan.Console.Command
import LoadPlan.Console.Report
import LoadPlan.Console.Screen
import LoadPlan.Console.Style
import LoadPlan.Console.Tagged
import LoadPlan.Description.Kind
import LoadPlan.Description.Node
import LoadPlan.Description.Reader
import LoadPlan.Diagnostic
import LoadPlan.Fields
import LoadPlan.Jmx.Audit
import LoadPlan.Jmx.Block
import LoadPlan.Jmx.Component
import LoadPlan.Jmx.Counts
import LoadPlan.Jmx.Fragment
import LoadPlan.Jmx.Generation
import LoadPlan.Jmx.Plan
import LoadPlan.Jmx.PlanFile
import LoadPlan.Json
import LoadPlan.Main
import LoadPlan.Markup.Character
import LoadPlan.Markup.Codepage
import LoadPlan.Markup.Doctype
import LoadPlan.Markup.Document
import LoadPlan.Markup.Element
import LoadPlan.Markup.Encoding
import LoadPlan.Markup.Escape
import LoadPlan.Markup.Instruction
import LoadPlan.Markup.Lexeme
import LoadPlan.Markup.Namespace
import LoadPlan.Markup.Reference
import LoadPlan.Markup.Tag
import LoadPlan.Markup.Tree
import LoadPlan.Number.Decimal
import LoadPlan.Number.Double
import LoadPlan.Number.Integer
import LoadPlan.Number.Shortest
import LoadPlan.Proofs.Build.Audited
import LoadPlan.Proofs.Build.Faults
import LoadPlan.Proofs.Build.Footprint
import LoadPlan.Proofs.Build.Provenance
import LoadPlan.Proofs.Build.Reordering
import LoadPlan.Proofs.Build.Unlined
import LoadPlan.Proofs.Console.Exit
import LoadPlan.Proofs.Console.Findings
import LoadPlan.Proofs.Console.Shown
import LoadPlan.Proofs.Console.Tagged
import LoadPlan.Proofs.Inclusion.Chain
import LoadPlan.Proofs.Inclusion.Containment
import LoadPlan.Proofs.Inclusion.Depth
import LoadPlan.Proofs.Inclusion.Inlining
import LoadPlan.Proofs.Inclusion.Lookup
import LoadPlan.Proofs.Inclusion.Moments
import LoadPlan.Proofs.Inclusion.Nearest
import LoadPlan.Proofs.Inclusion.Reentry
import LoadPlan.Proofs.Inclusion.Refusal
import LoadPlan.Proofs.Jmx.Breaks
import LoadPlan.Proofs.Jmx.Component
import LoadPlan.Proofs.Jmx.Conformity
import LoadPlan.Proofs.Jmx.DataSets
import LoadPlan.Proofs.Jmx.Grouping
import LoadPlan.Proofs.Jmx.Layout
import LoadPlan.Proofs.Jmx.Leaves
import LoadPlan.Proofs.Jmx.Loops
import LoadPlan.Proofs.Jmx.Making
import LoadPlan.Proofs.Jmx.Outcome
import LoadPlan.Proofs.Jmx.Pairing
import LoadPlan.Proofs.Jmx.Parts
import LoadPlan.Proofs.Jmx.Reaudit
import LoadPlan.Proofs.Jmx.Repetition
import LoadPlan.Proofs.Jmx.Samplers
import LoadPlan.Proofs.Jmx.Sound
import LoadPlan.Proofs.Jmx.SoundPlan
import LoadPlan.Proofs.Jmx.Tallies
import LoadPlan.Proofs.Jmx.Validity
import LoadPlan.Proofs.Jmx.Written
import LoadPlan.Proofs.Markup.Bytes
import LoadPlan.Proofs.Markup.Escaping
import LoadPlan.Proofs.Markup.Legible
import LoadPlan.Proofs.Markup.LineEnds
import LoadPlan.Proofs.Markup.Marks
import LoadPlan.Proofs.Markup.Rereading
import LoadPlan.Proofs.Markup.Scanning
import LoadPlan.Proofs.Markup.Tags
import LoadPlan.Proofs.Markup.Unescaping
import LoadPlan.Proofs.Markup.Wellformed
import LoadPlan.Proofs.Number.Integers
import LoadPlan.Proofs.Number.Limits
import LoadPlan.Proofs.Number.Numerals
import LoadPlan.Proofs.Number.Rounding
import LoadPlan.Proofs.Scenario.Course
import LoadPlan.Proofs.Scenario.DataLines
import LoadPlan.Proofs.Scenario.Documents
import LoadPlan.Proofs.Scenario.Flaw
import LoadPlan.Proofs.Scenario.Lacks
import LoadPlan.Proofs.Scenario.Numbering
import LoadPlan.Proofs.Scenario.Occurrences
import LoadPlan.Proofs.Scenario.Overriding
import LoadPlan.Proofs.Scenario.Placement
import LoadPlan.Proofs.Scenario.Precedence
import LoadPlan.Proofs.Scenario.Reads
import LoadPlan.Proofs.Scenario.Recognition
import LoadPlan.Proofs.Scenario.Regular
import LoadPlan.Proofs.Scenario.Removal
import LoadPlan.Proofs.Scenario.Requests
import LoadPlan.Proofs.Scenario.Shares
import LoadPlan.Proofs.Scenario.Sheds
import LoadPlan.Proofs.Scenario.Source
import LoadPlan.Proofs.Scenario.Spelled
import LoadPlan.Proofs.Scenario.Spelling
import LoadPlan.Proofs.Scenario.Standing
import LoadPlan.Proofs.Scenario.Titles
import LoadPlan.Proofs.Settings.Loading
import LoadPlan.Scenario.Collection
import LoadPlan.Scenario.DataFile
import LoadPlan.Scenario.Entry
import LoadPlan.Scenario.Hoisting
import LoadPlan.Scenario.Info
import LoadPlan.Scenario.Reading
import LoadPlan.Scenario.Request
import LoadPlan.Settings
import LoadPlan.Settings.Key
import LoadPlan.Settings.Reader
import LoadPlan.Storage.Disk
import LoadPlan.Storage.Failure
import LoadPlan.Storage.Path
import LoadPlan.Text.Bytes
import LoadPlan.Text.Character
import LoadPlan.Text.Line
import LoadPlan.Text.Quoted
import LoadPlan.Text.Utf8
import LoadPlan.Text.Visible
import LoadPlan.Yaml.Character
import LoadPlan.Yaml.Content
import LoadPlan.Yaml.Cursor
import LoadPlan.Yaml.Failure
import LoadPlan.Yaml.Graph
import LoadPlan.Yaml.Lexer
import LoadPlan.Yaml.Moment
import LoadPlan.Yaml.Property
import LoadPlan.Yaml.Scalar.Block
import LoadPlan.Yaml.Scalar.Conversion
import LoadPlan.Yaml.Scalar.Plain
import LoadPlan.Yaml.Scalar.Quoted
import LoadPlan.Yaml.Tag
import LoadPlan.Yaml.Token
import LoadPlan.Yaml.Value
