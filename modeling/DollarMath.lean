import DollarMath.Batch.Basic
import DollarMath.Batch.Folder
import DollarMath.Batch.Memory
import DollarMath.Batch.Report
import DollarMath.Batch.Run
import DollarMath.Calendar.Moment
import DollarMath.Clipboard
import DollarMath.Command.Arguments
import DollarMath.Command.Basic
import DollarMath.Command.Run
import DollarMath.Command.Session
import DollarMath.Console.Color
import DollarMath.Console.Emoji
import DollarMath.Console.Emoji.Flags
import DollarMath.Console.Emoji.People
import DollarMath.Console.Emoji.Signs
import DollarMath.Console.Layout
import DollarMath.Console.Line
import DollarMath.Console.Literal
import DollarMath.Console.Markup
import DollarMath.Console.Style
import DollarMath.Console.Width
import DollarMath.Conversion.BareTokens
import DollarMath.Conversion.BlankLines
import DollarMath.Conversion.Delimiters
import DollarMath.Conversion.Environments
import DollarMath.Conversion.FormulaLines
import DollarMath.Conversion.Options
import DollarMath.Conversion.PlainBrackets
import DollarMath.Conversion.Stage
import DollarMath.Document.DisplayMath
import DollarMath.Document.Fence
import DollarMath.Document.Link
import DollarMath.Document.Segmentation
import DollarMath.Editor
import DollarMath.Files.Disk
import DollarMath.Files.Glob
import DollarMath.Files.Path
import DollarMath.Files.Wildcard
import DollarMath.Formula.Guard
import DollarMath.Formula.Line
import DollarMath.Formula.Rule
import DollarMath.Formula.Vocabulary
import DollarMath.Json
import DollarMath.Main
import DollarMath.Number.Binary64
import DollarMath.Number.Numeral
import DollarMath.Number.Shortest
import DollarMath.Proofs.Batch.Accounts
import DollarMath.Proofs.Batch.Folder
import DollarMath.Proofs.Command.ChangeSetting
import DollarMath.Proofs.Conversion.Addresses
import DollarMath.Proofs.Conversion.Around
import DollarMath.Proofs.Conversion.BlankRows
import DollarMath.Proofs.Conversion.BracketPairs
import DollarMath.Proofs.Conversion.Carved
import DollarMath.Proofs.Conversion.Closing
import DollarMath.Proofs.Conversion.Content
import DollarMath.Proofs.Conversion.DelimiterLines
import DollarMath.Proofs.Conversion.EnvironmentsLeft
import DollarMath.Proofs.Conversion.FencedBlocks
import DollarMath.Proofs.Conversion.FixedPoint
import DollarMath.Proofs.Conversion.FormulaRows
import DollarMath.Proofs.Conversion.Frozen
import DollarMath.Proofs.Conversion.Independence
import DollarMath.Proofs.Conversion.InlineLinks
import DollarMath.Proofs.Conversion.ItemMarks
import DollarMath.Proofs.Conversion.Layout
import DollarMath.Proofs.Conversion.LeftAlone
import DollarMath.Proofs.Conversion.LineEdits
import DollarMath.Proofs.Conversion.LineEnds
import DollarMath.Proofs.Conversion.LineStyles
import DollarMath.Proofs.Conversion.LinkLines
import DollarMath.Proofs.Conversion.Passes
import DollarMath.Proofs.Conversion.Phrases
import DollarMath.Proofs.Conversion.PlainReading
import DollarMath.Proofs.Conversion.Returns
import DollarMath.Proofs.Conversion.Steady
import DollarMath.Proofs.Conversion.StrayLines
import DollarMath.Proofs.Conversion.Stretches
import DollarMath.Proofs.Conversion.TokenDollars
import DollarMath.Proofs.Conversion.TokenPlaces
import DollarMath.Proofs.Conversion.WithReturns
import DollarMath.Proofs.Document.Chunks
import DollarMath.Proofs.Document.DisplayFree
import DollarMath.Proofs.Document.DisplaySpans
import DollarMath.Proofs.Document.FenceSpans
import DollarMath.Proofs.Document.Fences
import DollarMath.Proofs.Document.Fencing
import DollarMath.Proofs.Document.LineCuts
import DollarMath.Proofs.Document.LinkShapes
import DollarMath.Proofs.Document.Lossless
import DollarMath.Proofs.Document.Marks
import DollarMath.Proofs.Document.Ordinary
import DollarMath.Proofs.Document.PairedLines
import DollarMath.Proofs.Document.Rims
import DollarMath.Proofs.Document.Seams
import DollarMath.Proofs.Document.WithReturns
import DollarMath.Proofs.Editor.Pastes
import DollarMath.Proofs.Files.Disk
import DollarMath.Proofs.Files.Written
import DollarMath.Proofs.Region.Fragments
import DollarMath.Proofs.Region.Fused
import DollarMath.Proofs.Region.HeldBack
import DollarMath.Proofs.Region.LineChanges
import DollarMath.Proofs.Region.LineNumbers
import DollarMath.Proofs.Region.LineView
import DollarMath.Proofs.Region.LinesWithReturns
import DollarMath.Proofs.Region.NormalForm
import DollarMath.Proofs.Region.Parts
import DollarMath.Proofs.Region.Passes
import DollarMath.Proofs.Region.Revised
import DollarMath.Proofs.Region.Rows
import DollarMath.Proofs.Region.Spliced
import DollarMath.Proofs.Region.Straddle
import DollarMath.Proofs.Region.StraySpans
import DollarMath.Proofs.Region.Survives
import DollarMath.Proofs.Region.Treatments
import DollarMath.Proofs.Region.WithReturns
import DollarMath.Proofs.Review.DelimiterRows
import DollarMath.Proofs.Review.Delimiters
import DollarMath.Proofs.Review.DollarLines
import DollarMath.Proofs.Review.Prose
import DollarMath.Proofs.Review.ProseLines
import DollarMath.Proofs.Review.Sight
import DollarMath.Proofs.Review.Veiled
import DollarMath.Proofs.Settings.Change
import DollarMath.Proofs.Settings.Describes
import DollarMath.Proofs.Settings.Effective
import DollarMath.Proofs.Settings.KeyCase
import DollarMath.Proofs.Settings.Loaded
import DollarMath.Proofs.Settings.Normal
import DollarMath.Proofs.Settings.Paths
import DollarMath.Proofs.Settings.Resolved
import DollarMath.Proofs.Text.Groups
import DollarMath.Proofs.Text.InlineLink
import DollarMath.Proofs.Text.LineEnds
import DollarMath.Proofs.Text.Pairs
import DollarMath.Proofs.Text.Utf8
import DollarMath.Proofs.Text.WithReturns
import DollarMath.Proofs.Yaml.Distinct
import DollarMath.Region.Basic
import DollarMath.Region.Edit
import DollarMath.Region.Line
import DollarMath.Region.Revision
import DollarMath.Review
import DollarMath.Settings.Basic
import DollarMath.Settings.Change
import DollarMath.Settings.Check
import DollarMath.Settings.KeyCase
import DollarMath.Settings.Load
import DollarMath.Settings.Merge
import DollarMath.Settings.Normal
import DollarMath.Settings.Scalar
import DollarMath.Settings.Shown
import DollarMath.Settings.Value
import DollarMath.Text.Base64
import DollarMath.Text.Blank
import DollarMath.Text.CodePoint
import DollarMath.Text.Group
import DollarMath.Text.Lines
import DollarMath.Text.Lowercase
import DollarMath.Text.Quoted
import DollarMath.Text.Scan
import DollarMath.Text.Span
import DollarMath.Text.Utf8
import DollarMath.Text.Word
import DollarMath.Yaml.Block
import DollarMath.Yaml.Cursor
import DollarMath.Yaml.Kind
import DollarMath.Yaml.Meaning
import DollarMath.Yaml.Node
import DollarMath.Yaml.Plain
import DollarMath.Yaml.Quoted
import DollarMath.Yaml.ReadError
import DollarMath.Yaml.Tag
import DollarMath.Yaml.Timestamp
import DollarMath.Yaml.Token
import DollarMath.Yaml.Writer
