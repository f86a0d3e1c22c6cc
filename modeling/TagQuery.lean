import TagQuery.Canonical
import TagQuery.Command.Arguments
import TagQuery.Command.Completions
import TagQuery.Command.Event
import TagQuery.Command.Failure
import TagQuery.Command.Host
import TagQuery.Command.LogFilter
import TagQuery.Command.Report
import TagQuery.Command.Run
import TagQuery.Command.Style
import TagQuery.Command.Table
import TagQuery.Disk.Access
import TagQuery.Disk.Basic
import TagQuery.Disk.Path
import TagQuery.Disk.Walk
import TagQuery.Filter.Basic
import TagQuery.Filter.Operator
import TagQuery.Filter.Origin
import TagQuery.Filter.Parser
import TagQuery.Filter.Printer
import TagQuery.Filter.ReadError
import TagQuery.Filter.Scanner
import TagQuery.Filter.Suggestion
import TagQuery.Filter.Token
import TagQuery.Json.Basic
import TagQuery.Json.Number
import TagQuery.Json.Printer
import TagQuery.Json.Problem
import TagQuery.Json.Reader
import TagQuery.Json.Skipper
import TagQuery.Main
import TagQuery.Number.Basic
import TagQuery.Number.Binary64
import TagQuery.Number.Decimal
import TagQuery.Number.Digit
import TagQuery.Number.Literal
import TagQuery.Number.Shortest
import TagQuery.Pattern.Atom
import TagQuery.Pattern.Basic
import TagQuery.Pattern.CharClass
import TagQuery.Pattern.Mode
import TagQuery.Proofs.Command.Atomic
import TagQuery.Proofs.Command.Colours
import TagQuery.Proofs.Command.Frame
import TagQuery.Proofs.Command.Modes
import TagQuery.Proofs.Command.Results
import TagQuery.Proofs.Command.Rows
import TagQuery.Proofs.Command.Sessions
import TagQuery.Proofs.Command.Setting
import TagQuery.Proofs.Disk.Paths
import TagQuery.Proofs.Disk.Walks
import TagQuery.Proofs.Except
import TagQuery.Proofs.Filter.Beginnings
import TagQuery.Proofs.Filter.Completeness
import TagQuery.Proofs.Filter.ErrorPlaces
import TagQuery.Proofs.Filter.Grammar
import TagQuery.Proofs.Filter.LimitErrors
import TagQuery.Proofs.Filter.Limits
import TagQuery.Proofs.Filter.Nesting
import TagQuery.Proofs.Filter.Numerals
import TagQuery.Proofs.Filter.Parsing
import TagQuery.Proofs.Filter.Rendering
import TagQuery.Proofs.Filter.RoundTrip
import TagQuery.Proofs.Filter.Scanning
import TagQuery.Proofs.Filter.Soundness
import TagQuery.Proofs.Filter.Spelling
import TagQuery.Proofs.Filter.Steps
import TagQuery.Proofs.Filter.Suggestions
import TagQuery.Proofs.Filter.Tokenizing
import TagQuery.Proofs.Growth
import TagQuery.Proofs.Json.Brackets
import TagQuery.Proofs.Json.Decimals
import TagQuery.Proofs.Json.Depth
import TagQuery.Proofs.Json.Order
import TagQuery.Proofs.Json.Scalars
import TagQuery.Proofs.Json.Skipping
import TagQuery.Proofs.Json.Values
import TagQuery.Proofs.Normalize
import TagQuery.Proofs.Number.Digits
import TagQuery.Proofs.Number.Literal
import TagQuery.Proofs.Number.Nearest
import TagQuery.Proofs.Number.Rounding
import TagQuery.Proofs.Regrouping
import TagQuery.Proofs.Settings.RoundTrip
import TagQuery.Proofs.Stored
import TagQuery.Proofs.Text.EditDistance
import TagQuery.Proofs.Text.Words
import TagQuery.Proofs.Tree.Canonical
import TagQuery.Proofs.Tree.Decoding
import TagQuery.Proofs.Tree.Faults
import TagQuery.Proofs.Tree.Fields
import TagQuery.Proofs.Tree.FixedPoints
import TagQuery.Proofs.Tree.Meaning
import TagQuery.Proofs.Tree.Nodes
import TagQuery.Proofs.Tree.Parts
import TagQuery.Proofs.Tree.Pruning
import TagQuery.Proofs.Tree.ReadBack
import TagQuery.Proofs.Tree.Recoding
import TagQuery.Proofs.Tree.Routes
import TagQuery.Proofs.Tree.Shown
import TagQuery.Proofs.Tree.Size
import TagQuery.Proofs.Tree.Unchanged
import TagQuery.Proofs.Tree.Wire
import TagQuery.Settings
import TagQuery.Text.AsciiCase
import TagQuery.Text.Blank
import TagQuery.Text.Boolean
import TagQuery.Text.CharRange
import TagQuery.Text.EditDistance
import TagQuery.Text.Extent
import TagQuery.Text.Letter
import TagQuery.Text.Numeral
import TagQuery.Text.Shown
import TagQuery.Text.Word
import TagQuery.Toml.Basic
import TagQuery.Toml.Reader
import TagQuery.Toml.Scalar
import TagQuery.Tree.Basic
import TagQuery.Tree.Decode
import TagQuery.Tree.Edit
import TagQuery.Tree.Encode
import TagQuery.Tree.OfFilter
import TagQuery.Tree.ShapeError
import TagQuery.Tree.ToFilter
import TagQuery.Tree.Vocabulary
import TagQuery.Vocabulary
