import Retouch.Client.Basic
import Retouch.Client.Behavior
import Retouch.Client.Channel
import Retouch.Client.Edits
import Retouch.Client.Events
import Retouch.Client.Outbound
import Retouch.Client.Tree
import Retouch.Client.World
import Retouch.Command.Options
import Retouch.Command.Run
import Retouch.Config
import Retouch.Files.Changes
import Retouch.Files.Disk
import Retouch.Files.Encoding
import Retouch.Files.Path
import Retouch.Service.Watcher
import Retouch.Grammar.Pattern
import Retouch.Grammar.Compact
import Retouch.Grammar.Confusion
import Retouch.Grammar.Form
import Retouch.Grammar.Join
import Retouch.Grammar.Mend
import Retouch.Grammar.Scan
import Retouch.Grammar.States
import Retouch.Grammar.Strand
import Retouch.Grammar.Table
import Retouch.Grammar.Tree
import Retouch.Json.Basic
import Retouch.Json.Reader
import Retouch.Json.Writer
import Retouch.Locator
import Retouch.Main
import Retouch.Markup.Document
import Retouch.Markup.Reader
import Retouch.Markup.Lexis
import Retouch.Markup.TextEdit
import Retouch.Number.Amount
import Retouch.Number.Binary
import Retouch.Number.Notation
import Retouch.Project.Basic
import Retouch.Project.Edit
import Retouch.Project.Folders
import Retouch.Project.History
import Retouch.Project.Write
import Retouch.Service.Connection
import Retouch.Service.Http
import Retouch.Sheet.Lexis
import Retouch.Sheet.Declare
import Retouch.Sheet.Document
import Retouch.Sheet.Edit
import Retouch.Sheet.Grammar
import Retouch.Sheet.Item
import Retouch.Sheet.QueryForm
import Retouch.Sheet.Rule
import Retouch.Sheet.SelectorForm
import Retouch.Sheet.ValueForm
import Retouch.Style.Build
import Retouch.Style.Color
import Retouch.Style.Color.Convert
import Retouch.Style.Color.Reader
import Retouch.Style.Color.Writer
import Retouch.Style.Compare
import Retouch.Style.Reader
import Retouch.Style.Split
import Retouch.Style.Value
import Retouch.Table
import Retouch.Text.Blank
import Retouch.Text.Case
import Retouch.Text.Digit
import Retouch.Text.LineBreak
import Retouch.Text.Printable
import Retouch.Text.Ranges
import Retouch.Text.Utf8
import Retouch.Text.Word
import Retouch.Transform
import Retouch.Wire.Client
import Retouch.Wire.Fault
import Retouch.Wire.Markup
import Retouch.Wire.Project
import Retouch.Wire.Scalar
import Retouch.Wire.Schema
import Retouch.Wire.Sheet
import Retouch.Wire.Style
import Retouch.Wire.Transform
import Retouch.Proofs.Files.Disk
import Retouch.Proofs.Project.Failure
import Retouch.Proofs.Project.Faithful
import Retouch.Proofs.Project.Transparency
import Retouch.Proofs.Service.Failure
import Retouch.Proofs.Style.Cut
import Retouch.Proofs.Style.Tidied
import Retouch.Proofs.Style.Numeral
import Retouch.Proofs.Style.Trip
import Retouch.Proofs.Style.ColorTrip
import Retouch.Proofs.Sheet.Reading
import Retouch.Proofs.Project.Reportable
import Retouch.Proofs.Service.Answer
import Retouch.Proofs.Client.Consistent
import Retouch.Proofs.Client.Editing
import Retouch.Proofs.Project.Reverting
import Retouch.Proofs.Files.Encoding
import Retouch.Proofs.Files.PathText
import Retouch.Proofs.Files.Range
import Retouch.Proofs.Json.Written
import Retouch.Proofs.Markup.Lexis
import Retouch.Proofs.Markup.Place
import Retouch.Proofs.Markup.Opposite
import Retouch.Proofs.Markup.ReadBack
import Retouch.Proofs.Project.Committed
import Retouch.Proofs.Project.Local
import Retouch.Proofs.Project.TextReverting
import Retouch.Proofs.Project.Altering
import Retouch.Proofs.Client.LifeCycle
import Retouch.Proofs.Number.Exact
import Retouch.Proofs.Client.Reconnect
import Retouch.Proofs.Files.Folders
import Retouch.Proofs.Project.Records
import Retouch.Proofs.Project.History
import Retouch.Proofs.Service.History
import Retouch.Proofs.Client.Inbound
import Retouch.Proofs.Client.Apart
import Retouch.Proofs.Service.Undo
import Retouch.Proofs.Service.Exchange
import Retouch.Proofs.Service.Confined
import Retouch.Proofs.Client.Destroyed
import Retouch.Proofs.Sheet.Effective
import Retouch.Proofs.Sheet.Atomic
import Retouch.Proofs.Sheet.Taken
import Retouch.Proofs.Sheet.Lookup
import Retouch.Proofs.Sheet.Edited
import Retouch.Proofs.Markup.Innermost
import Retouch.Proofs.Project.Commuting
import Retouch.Proofs.Style.Printed
import Retouch.Proofs.Client.Deferred
import Retouch.Proofs.Config.Memory
import Retouch.Proofs.Locator
import Retouch.Proofs.Service.Watched
import Retouch.Proofs.Style.Decimals
import Retouch.Proofs.Style.Parts
import Retouch.Proofs.Number.Known
import Retouch.Proofs.Style.Comparison
import Retouch.Proofs.Sheet.Closest
import Retouch.Proofs.Client.Registered
import Retouch.Proofs.Client.Links
import Retouch.Proofs.Style.Recognized
import Retouch.Proofs.Style.ColorText
