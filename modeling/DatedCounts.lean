import DatedCounts.Bytes
import DatedCounts.Pieces
import DatedCounts.Ordered.Map
import DatedCounts.Ordered.Set
import DatedCounts.Text.Utf8
import DatedCounts.Text.Utf8.RoundTrip
import DatedCounts.Text
import DatedCounts.Text.Blank
import DatedCounts.Text.Numeral
import DatedCounts.Text.Quoted
import DatedCounts.Calendar
import DatedCounts.Key
import DatedCounts.Key.Qualifier
import DatedCounts.Key.Range
import DatedCounts.Count
import DatedCounts.DateMap
import DatedCounts.Encoding.Fault
import DatedCounts.Encoding.Value
import DatedCounts.Label
import DatedCounts.Draw
import DatedCounts.Error
import DatedCounts.Label.Conjunction
import DatedCounts.Cursor
import DatedCounts.Cursor.Group
import DatedCounts.Cursor.Rollup
import DatedCounts.Cursor.Sieve
import DatedCounts.Cursor.Stack
import DatedCounts.Toml.Number
import DatedCounts.Toml.Settings
import DatedCounts.Dump
import DatedCounts.Command
import DatedCounts.Main
import DatedCounts.Proofs.Fallible
import DatedCounts.Proofs.Ordered.Ascending
import DatedCounts.Proofs.Ordered.Lookup
import DatedCounts.Proofs.Key.Series
import DatedCounts.Proofs.DateMap.Sum
import DatedCounts.Proofs.DateMap.Merging
import DatedCounts.Proofs.Cursor.Tally
import DatedCounts.Proofs.Cursor.Reading
import DatedCounts.Proofs.Cursor.Store
import DatedCounts.Proofs.Cursor.Rollup
import DatedCounts.Proofs.Cursor.Groupwise
import DatedCounts.Proofs.Cursor.Sums
import DatedCounts.Proofs.Cursor.Totals
import DatedCounts.Proofs.Calendar.Digits
import DatedCounts.Proofs.Filter.Window
import DatedCounts.Proofs.Key.Boundary
import DatedCounts.Proofs.Filter.Hint
import DatedCounts.Proofs.Filter.Stretch
import DatedCounts.Proofs.Cursor.Serving
import DatedCounts.Proofs.Cursor.Sieve
import DatedCounts.Proofs.Cursor.Sifting
import DatedCounts.Proofs.Cursor.Stack
import DatedCounts.Proofs.Label.Grammar
import DatedCounts.Proofs.Label.Conjunction
import DatedCounts.Proofs.Encoding.Varint
import DatedCounts.Proofs.Encoding.Value
import DatedCounts.Proofs.Encoding.Spelling
import DatedCounts.Proofs.Cursor.Footprint
import DatedCounts.Proofs.Cursor.Joint
import DatedCounts.Proofs.Cursor.Staged
import DatedCounts.Proofs.Cursor.Pace
import DatedCounts.Proofs.Cursor.Exposure
import DatedCounts.Proofs.Cursor.Accounts
import DatedCounts.Proofs.Cursor.Windowed
import DatedCounts.Proofs.Cursor.Folding
import DatedCounts.Proofs.Cursor.Collapse
import DatedCounts.Proofs.Cursor.Moves
import DatedCounts.Proofs.Cursor.Breakdown
import DatedCounts.Proofs.Cursor.Climbing
import DatedCounts.Proofs.Cursor.Ascent
import DatedCounts.Proofs.Cursor.Counting
import DatedCounts.Proofs.Cursor.Forking
import DatedCounts.Proofs.Cursor.Listing
import DatedCounts.Proofs.Cursor.Entries
import DatedCounts.Proofs.Cursor.Consumption
import DatedCounts.Proofs.Text.Items
import DatedCounts.Proofs.Text.Numeral
import DatedCounts.Proofs.Text.Encoded
import DatedCounts.Proofs.Dump.Lines
import DatedCounts.Proofs.Cursor.Written
import DatedCounts.Proofs.Dump.Forms
import DatedCounts.Proofs.Report.Completion
import DatedCounts.Proofs.Settings.Respelled
import DatedCounts.Proofs.Settings.Override
import DatedCounts.Proofs.Label.Derivation
import DatedCounts.Proofs.Label.Regrouping
import DatedCounts.Proofs.Encoding.Guarded
import DatedCounts.Proofs.Encoding.PrefixFree
import DatedCounts.Proofs.Encoding.Digits
import DatedCounts.Proofs.Calendar.Gregorian
import DatedCounts.Proofs.Key.Contiguity
import DatedCounts.Proofs.Key.LeastBounds
import DatedCounts.Proofs.Filter.Validity
import DatedCounts.Proofs.Dump.Printed
