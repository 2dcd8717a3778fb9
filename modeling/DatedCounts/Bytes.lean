/-!
# Byte strings

Rows, families, qualifiers, labels and values are byte strings, compared byte by byte with a shorter
string before its extensions. The least string above all extensions of a given one bounds a run of
keys that share a beginning.
-/

namespace DatedCounts

/-- A byte string, ordered lexicographically. -/
abbrev Bytes := List UInt8

/-- The least byte string above every extension of `bytes`. There is none when every byte is the
greatest one, and so none for the empty string. -/
def Bytes.pastExtensions? : Bytes → Option Bytes
  | [] => none
  | byte :: rest =>
    match pastExtensions? rest with
    | some past => some (byte :: past)
    | none => if byte = 255 then none else some [byte + 1]

end DatedCounts
