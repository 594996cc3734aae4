import TexMark.Main
import TexMark.Message.Fill
import TexMark.Proofs.Edits
import TexMark.Proofs.Notes
import TexMark.Service.Log
import TexMark.Proofs.Readers
import TexMark.Proofs.Passes
import TexMark.Proofs.Definitions
import TexMark.Proofs.Conversions
import TexMark.Proofs.Environment.Fates
import TexMark.Proofs.Environment.Regions
import TexMark.Proofs.Delimiter.Cut
import TexMark.Proofs.Delimiter.Formula
import TexMark.Proofs.Delimiter.Output
import TexMark.Proofs.Delimiter.Runs
import TexMark.Proofs.Delimiter.Quotation
import TexMark.Proofs.Delimiter.RoundTrip
import TexMark.Proofs.Theorem.RoundTrip
import TexMark.Proofs.Theorem.Instances
import TexMark.Proofs.Label.Callouts
import TexMark.Proofs.Label.Equations
import TexMark.Proofs.Theorem.Unnumbered
import TexMark.Proofs.Macro.Words
import TexMark.Proofs.Theorem.Headings
import TexMark.Proofs.Macro.Expansion
import TexMark.Proofs.Macro.Seams
import TexMark.Proofs.Macro.Shadowing
import TexMark.Proofs.Config.Overrides
import TexMark.Proofs.Command.Leave
import TexMark.Proofs.Command.Storing
import TexMark.Proofs.Service.Answers
import TexMark.Proofs.Conversion.Pool
import TexMark.Proofs.Conversion.Unmarked
import TexMark.Proofs.Rows.Reflow
import TexMark.Proofs.Rows.Separators
import TexMark.Proofs.Delimiter.Display
import TexMark.Proofs.Delimiter.Escapes
import TexMark.Proofs.Layout.Tidying
import TexMark.Proofs.Markup.Lexemes
import TexMark.Proofs.Sizing.Cleaning
import TexMark.Proofs.Environment.RowSpacing
import TexMark.Proofs.Environment.Columns
import TexMark.Proofs.Environment.Numbering
import TexMark.Proofs.Theorem.Block
import TexMark.Proofs.Macro.Collection
import TexMark.Proofs.Theorem.Reading
import TexMark.Proofs.Theorem.LineStart
import TexMark.Proofs.Theorem.Titles
import TexMark.Proofs.Macro.Substitution
import TexMark.Proofs.Macro.Order
import TexMark.Proofs.Label.References
import TexMark.Proofs.Label.Headings
import TexMark.Proofs.Label.Removal
import TexMark.Proofs.Citation.Leftovers
import TexMark.Proofs.Delimiter.Standing
import TexMark.Proofs.Edit.Places
import TexMark.Proofs.Matching
import TexMark.Proofs.Settings.Honouring
import TexMark.Proofs.Message.Filling
import TexMark.Proofs.Number.Rounding
