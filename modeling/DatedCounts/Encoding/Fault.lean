import DatedCounts.Text
import DatedCounts.Text.Quoted

/-!
# Faults of encoded counts
-/

namespace DatedCounts.Encoding

inductive Fault where
  /-- The number in these ten bytes is too large. -/
  | overflow (bytes : Bytes)
  /-- Ten bytes do not end a number. -/
  | unterminated
  /-- The input ends inside a number, after this many bytes of it. -/
  | truncated (read : Nat)
  | bytesAfterCount (left : Nat)
  | missingEntries (declared found : Nat)
  | shortDate (left length : Nat)
  | dateNotText (fault : Utf8.Fault)
  | datesOutOfOrder (date previous : Text)
  | bytesAfterEntries (left declared : Nat)
  deriving DecidableEq

def Fault.message : Fault → String
  | .overflow bytes => "varint overflows u64 " ++ Quoted.bytes bytes
  | .unterminated => "varint longer than 10 bytes"
  | .truncated read => s!"truncated varint after {read} bytes"
  | .bytesAfterCount left => s!"{left} trailing bytes after frequency"
  | .missingEntries declared found => s!"declared {declared} entries, found {found}"
  | .shortDate left length => s!"insufficient input date/{left} ({length})"
  | .dateNotText fault => fault.message
  | .datesOutOfOrder date previous =>
    "date " ++ Quoted.text date.toString ++ " after " ++ Quoted.text previous.toString
  | .bytesAfterEntries left declared => s!"{left} trailing bytes after {declared} entries"

end DatedCounts.Encoding
