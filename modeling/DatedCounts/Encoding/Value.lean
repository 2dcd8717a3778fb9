import DatedCounts.DateMap
import DatedCounts.Encoding.Varint

/-!
# Values of records

The value of a raw record is one number. The value of an aggregated record is the number of its dates
and then, for each date in ascending order, the length of the date, its bytes and its count. A map has
one shortest encoding, and no encoding is the beginning of another.
-/

namespace DatedCounts

open Encoding

namespace Count

def encode (count : Count) : Bytes := Varint.encode count.toNat

/-- A buffer with a count written at its end, and how many bytes that added. -/
def appendTo (buffer : Bytes) (count : Count) : Bytes × Nat := Varint.appendTo buffer count.toNat

/-- The count that takes up a whole value. -/
def decode (bytes : Bytes) : Except Fault Count := do
  let (count, rest) ← Varint.decode bytes
  if rest.isEmpty then .ok count else .error (.bytesAfterCount rest.length)

end Count

namespace DateMap

def encodeEntry (entry : Text × Count) : Bytes :=
  Varint.encode entry.1.bytes.length ++ entry.1.bytes ++ entry.2.encode

def encode (m : DateMap) : Bytes := Varint.encode m.size ++ m.toList.flatMap encodeEntry

def appendEntry (written : Bytes × Nat) (entry : Text × Count) : Bytes × Nat :=
  let (buffer, length) := Varint.appendTo written.1 entry.1.bytes.length
  let (buffer, count) := Count.appendTo (buffer ++ entry.1.bytes) entry.2
  (buffer, written.2 + length + entry.1.bytes.length + count)

def appendTo (buffer : Bytes) (m : DateMap) : Bytes × Nat :=
  m.toList.foldl appendEntry (Varint.appendTo buffer m.size)

/-- Reads a date of which the length comes first. -/
def decodeDate (bytes : Bytes) : Except Fault (Text × Bytes) := do
  let (length, rest) ← Varint.decode bytes
  if rest.length < length.toNat then .error (.shortDate rest.length length.toNat)
  else
    match Text.ofBytes (rest.take length.toNat) with
    | .ok date => .ok (date, rest.drop length.toNat)
    | .error fault => .error (.dateNotText fault)

/-- Reads a date above the previous one and its count. -/
def decodeEntry (previous : Option Text) (bytes : Bytes) :
    Except Fault ((Text × Count) × Bytes) := do
  let (date, rest) ← decodeDate bytes
  match previous with
  | some before =>
    if (compare before date).isGE then .error (.datesOutOfOrder date before)
  | none => pure ()
  let (count, rest) ← Varint.decode rest
  .ok ((date, count), rest)

/-- Reads the entries that are still missing of those `declared`, and takes them into the map. -/
def decodeEntries (declared : Nat) :
    (missing : Nat) → DateMap → Option Text → Bytes → Except Fault (DateMap × Bytes)
  | 0, m, _, bytes => .ok (m, bytes)
  | missing + 1, m, previous, bytes =>
    if bytes.isEmpty then .error (.missingEntries declared (declared - (missing + 1)))
    else
      match decodeEntry previous bytes with
      | .error fault => .error fault
      | .ok ((date, count), rest) =>
        decodeEntries declared missing (m.insert date count) (some date) rest

def decode (bytes : Bytes) : Except Fault DateMap := do
  let (declared, rest) ← Varint.decode bytes
  let (m, rest) ← decodeEntries declared.toNat declared.toNat ∅ none rest
  if rest.isEmpty then .ok m else .error (.bytesAfterEntries rest.length declared.toNat)

end DateMap

end DatedCounts
