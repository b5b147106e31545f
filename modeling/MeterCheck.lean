import MeterCheck.Service.Answer
import MeterCheck.Proofs.Text.Blank
import MeterCheck.Proofs.Text.LowerCase
import MeterCheck.Proofs.Text.Neighbours
import MeterCheck.Proofs.Text.Numeral
import MeterCheck.Proofs.Text.Pieces
import MeterCheck.Proofs.Text.Parts
import MeterCheck.Proofs.Text.Bytes
import MeterCheck.Proofs.Beats.Rational
import MeterCheck.Proofs.Beats.Checked
import MeterCheck.Proofs.Beats.Order
import MeterCheck.Proofs.Binary64.Text
import MeterCheck.Proofs.Binary64.Rounding
import MeterCheck.Proofs.Binary64.Shortest
import MeterCheck.Proofs.Binary64.Bounded
import MeterCheck.Proofs.Json.Tree
import MeterCheck.Proofs.Json.Lexing
import MeterCheck.Proofs.Json.Numeral
import MeterCheck.Proofs.Json.Scaling
import MeterCheck.Proofs.Json.Decimal
import MeterCheck.Proofs.Json.Within
import MeterCheck.Proofs.Json.RoundTrip
import MeterCheck.Proofs.Json.Distinct
import MeterCheck.Proofs.Json.Weight
import MeterCheck.Proofs.Json.Sendable
import MeterCheck.Proofs.Decode.Ensures
import MeterCheck.Proofs.Decode.Written
import MeterCheck.Proofs.Decode.Agree
import MeterCheck.Proofs.Decode.Origin
import MeterCheck.Proofs.Decode.Rewrite
import MeterCheck.Proofs.Duration.Length
import MeterCheck.Proofs.Duration.Normal
import MeterCheck.Proofs.Duration.NoteValue
import MeterCheck.Proofs.Duration.Decode
import MeterCheck.Proofs.Duration.Meaning
import MeterCheck.Proofs.Duration.Display
import MeterCheck.Proofs.Duration.Spelling
import MeterCheck.Proofs.Duration.Written
import MeterCheck.Proofs.Duration.Clear
import MeterCheck.Proofs.Duration.Bucket
import MeterCheck.Proofs.Duration.Regular
import MeterCheck.Proofs.Table
import MeterCheck.Proofs.TimeSignature.Resolve
import MeterCheck.Proofs.Verdict.Checked
import MeterCheck.Proofs.Verdict.Range
import MeterCheck.Proofs.Verdict.Exact
import MeterCheck.Proofs.Verdict.Tally
import MeterCheck.Proofs.Verdict.Finite
import MeterCheck.Proofs.Verdict.Interval
import MeterCheck.Proofs.Verdict.Ratio
import MeterCheck.Proofs.TimeSignature.Positive
import MeterCheck.Proofs.TimeSignature.Grammar
import MeterCheck.Proofs.TimeSignature.Forms
import MeterCheck.Proofs.Report.Carry
import MeterCheck.Proofs.Report.Edit
import MeterCheck.Proofs.Report.Boundary
import MeterCheck.Proofs.Report.Revise
import MeterCheck.Proofs.Report.Failure
import MeterCheck.Proofs.Report.Append
import MeterCheck.Proofs.Report.Declare
import MeterCheck.Proofs.Report.Quiet
import MeterCheck.Proofs.Report.Counts
import MeterCheck.Proofs.Report.Trace
import MeterCheck.Proofs.Report.Deviations
import MeterCheck.Proofs.Shape.Findings
import MeterCheck.Proofs.Score.Decode
import MeterCheck.Proofs.Score.Written
import MeterCheck.Proofs.Score.RoundTrip
import MeterCheck.Proofs.Score.Agree
import MeterCheck.Proofs.Score.Rewrite
import MeterCheck.Proofs.Score.Origin
import MeterCheck.Proofs.Score.Statistics
import MeterCheck.Proofs.Score.Rearrange
import MeterCheck.Proofs.Report.Sendable
import MeterCheck.Proofs.Service.SingleMeasure
import MeterCheck.Proofs.Service.Decode
import MeterCheck.Proofs.Service.SameScore
import MeterCheck.Proofs.Service.Swap
import MeterCheck.Proofs.Shape.Sendable
import MeterCheck.Proofs.Shape.Pointer
import MeterCheck.Proofs.Service.Marks
import MeterCheck.Proofs.Service.Faithful
import MeterCheck.Proofs.Service.Presentation
import MeterCheck.Proofs.Service.Arithmetic
import MeterCheck.Proofs.Service.Histogram
import MeterCheck.Proofs.Service.Census
