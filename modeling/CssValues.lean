import CssValues.Border
import CssValues.Box
import CssValues.Calc.Expression
import CssValues.Calc.LooseTerm
import CssValues.Calc.Source
import CssValues.Calc.Term
import CssValues.Color.Basic
import CssValues.Color.Blend
import CssValues.Color.Contrast
import CssValues.Color.Hsl
import CssValues.Color.Reading
import CssValues.Component.Basic
import CssValues.Component.Css
import CssValues.Component.Parts
import CssValues.Context
import CssValues.Declaration.Basic
import CssValues.Entries
import CssValues.Error
import CssValues.Item
import CssValues.Journal.Basic
import CssValues.Journal.Directory
import CssValues.Journal.Pattern
import CssValues.Journal.Record
import CssValues.Journal.Template
import CssValues.Json.Reading
import CssValues.Length
import CssValues.Note
import CssValues.Number.Basic
import CssValues.Number.Binary64
import CssValues.Number.Decimal
import CssValues.Number.Layout
import CssValues.Number.Places
import CssValues.Number.Power
import CssValues.Number.Reading
import CssValues.Number.Rounding
import CssValues.Percentage
import CssValues.Proofs.AsciiForm
import CssValues.Proofs.Border
import CssValues.Proofs.Box
import CssValues.Proofs.Calc
import CssValues.Proofs.Calc.Grammar
import CssValues.Proofs.Calc.Source
import CssValues.Proofs.Color
import CssValues.Proofs.Color.AsciiForm
import CssValues.Proofs.Color.Blend
import CssValues.Proofs.Color.Channel
import CssValues.Proofs.Color.Coordinates
import CssValues.Proofs.Color.Form
import CssValues.Proofs.Color.Function
import CssValues.Proofs.Color.Grey
import CssValues.Proofs.Color.Hex
import CssValues.Proofs.Color.Hsl
import CssValues.Proofs.Color.Levels
import CssValues.Proofs.Color.Lightness
import CssValues.Proofs.Color.Recipe
import CssValues.Proofs.Color.Transcription
import CssValues.Proofs.Color.Wheel
import CssValues.Proofs.Component.Css
import CssValues.Proofs.Component.Folding
import CssValues.Proofs.Component.Layout
import CssValues.Proofs.Component.Nest
import CssValues.Proofs.Component.Parts
import CssValues.Proofs.Component.Row
import CssValues.Proofs.Construction
import CssValues.Proofs.Context
import CssValues.Proofs.Context.Changes
import CssValues.Proofs.Conversion
import CssValues.Proofs.Declaration
import CssValues.Proofs.Declaration.Sequence
import CssValues.Proofs.Declaration.Value
import CssValues.Proofs.Entries
import CssValues.Proofs.Journal.Copies
import CssValues.Proofs.Journal.Lineage
import CssValues.Proofs.Journal.Runs
import CssValues.Proofs.Journal.Setup
import CssValues.Proofs.Length
import CssValues.Proofs.Note
import CssValues.Proofs.Number.Binary64
import CssValues.Proofs.Number.Decimal
import CssValues.Proofs.Number.Error
import CssValues.Proofs.Number.Interval
import CssValues.Proofs.Number.Layout
import CssValues.Proofs.Number.Literal
import CssValues.Proofs.Number.Loose
import CssValues.Proofs.Number.Monotone
import CssValues.Proofs.Number.Nearest
import CssValues.Proofs.Number.Numeral
import CssValues.Proofs.Number.Order
import CssValues.Proofs.Number.Pattern
import CssValues.Proofs.Number.Plain
import CssValues.Proofs.Number.Rounding
import CssValues.Proofs.Number.Unsigned
import CssValues.Proofs.Quantity
import CssValues.Proofs.Quantity.Range
import CssValues.Proofs.Quantity.Reading
import CssValues.Proofs.Resolver
import CssValues.Proofs.Resolver.Agreement
import CssValues.Proofs.Resolver.Calculation
import CssValues.Proofs.Resolver.Casing
import CssValues.Proofs.Resolver.Length
import CssValues.Proofs.Resolver.Transcription
import CssValues.Proofs.Respelling
import CssValues.Proofs.Settings
import CssValues.Proofs.Settings.Layers
import CssValues.Proofs.Settings.Objects
import CssValues.Proofs.Settings.Store
import CssValues.Proofs.Spelling
import CssValues.Proofs.Style.Casing
import CssValues.Proofs.Style.Edges
import CssValues.Proofs.Style.Equality
import CssValues.Proofs.Style.Getter
import CssValues.Proofs.Style.History
import CssValues.Proofs.Style.Latest
import CssValues.Proofs.Style.Merging
import CssValues.Proofs.Style.Naming
import CssValues.Proofs.Style.Opacity
import CssValues.Proofs.Style.Plain
import CssValues.Proofs.Style.RoundTrip
import CssValues.Proofs.Style.Shorthand
import CssValues.Proofs.Style.Tidy
import CssValues.Proofs.Style.Width
import CssValues.Proofs.Text.AsciiForm
import CssValues.Proofs.Text.Casing
import CssValues.Proofs.Text.Digits
import CssValues.Proofs.Text.Folding
import CssValues.Proofs.Text.HexDigits
import CssValues.Proofs.Text.Lowercase
import CssValues.Proofs.Text.Transcription
import CssValues.Proofs.Text.Trim
import CssValues.Proofs.Token.Closed
import CssValues.Proofs.Token.Cut
import CssValues.Proofs.Token.Folding
import CssValues.Proofs.Token.Kept
import CssValues.Proofs.Token.Lowered
import CssValues.Proofs.Token.Normalize
import CssValues.Proofs.Token.Rescan
import CssValues.Proofs.Token.Scan
import CssValues.Proofs.Token.Simple
import CssValues.Proofs.Unit
import CssValues.Proofs.Whole
import CssValues.Resolver
import CssValues.Settings.Basic
import CssValues.Settings.Loading
import CssValues.Settings.Store
import CssValues.Style.Basic
import CssValues.Style.Getter
import CssValues.Text.Basic
import CssValues.Text.Blank
import CssValues.Text.DecimalDigit
import CssValues.Text.Lowercase
import CssValues.Text.Quoted
import CssValues.Text.Ranges
import CssValues.Text.Table.Casing
import CssValues.Text.Table.DecimalZeros
import CssValues.Text.Table.NonPrinting
import CssValues.Text.Table.WordCharacters
import CssValues.Text.Word
import CssValues.Token.Basic
import CssValues.Token.Reader
import CssValues.Token.Scan
import CssValues.Unit
import CssValues.Value.Arithmetic
import CssValues.Value.Basic
