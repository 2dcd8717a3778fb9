import DatedCounts.Error
import DatedCounts.Pieces

/-!
# Qualifiers

A qualifier in raw form is a datatype, a NUL byte and a date, and its record holds one count. A
qualifier without a NUL is a datatype alone, and its record holds the counts of many dates. A datatype
has no NUL in it, so the first NUL of a qualifier ends the datatype.
-/

namespace DatedCounts

inductive Qualifier where
  | raw (datatype date : Bytes)
  | aggregated (datatype : Bytes)
  deriving DecidableEq, Repr

namespace Qualifier

def separator : UInt8 := 0

def ofBytes (bytes : Bytes) : Qualifier :=
  match cutAt? separator bytes with
  | some (datatype, date) => .raw datatype date
  | none => .aggregated bytes

def toBytes : Qualifier → Bytes
  | .raw datatype date => datatype ++ separator :: date
  | .aggregated datatype => datatype

def datatype : Qualifier → Bytes
  | .raw datatype _ => datatype
  | .aggregated datatype => datatype

def isRaw : Qualifier → Bool
  | .raw .. => true
  | .aggregated _ => false

/-- The datatype and the date of a qualifier that must be in raw form. -/
def rawParts (bytes : Bytes) : Except Error (Bytes × Bytes) :=
  match ofBytes bytes with
  | .raw datatype date => .ok (datatype, date)
  | .aggregated _ => .error (.noSeparator bytes)

theorem toBytes_ofBytes (bytes : Bytes) : (ofBytes bytes).toBytes = bytes := by
  simp only [ofBytes]
  split
  · next h => exact (eq_append_of_cutAt? h).1.symm
  · rfl

theorem ofBytes_raw {datatype : Bytes} (h : separator ∉ datatype) (date : Bytes) :
    ofBytes (raw datatype date).toBytes = raw datatype date := by
  simp only [ofBytes, toBytes, cutAt?_append h]

theorem ofBytes_aggregated {datatype : Bytes} (h : separator ∉ datatype) :
    ofBytes datatype = aggregated datatype := by
  simp only [ofBytes, cutAt?_eq_none.2 h]

end Qualifier

def Key.parts (key : Key) : Qualifier := Qualifier.ofBytes key.qualifier

def Key.ofRaw (row family : Bytes) (datatype date : Text) (visibility : Bytes)
    (timestamp : UInt64) : Key :=
  ⟨row, family, (Qualifier.raw datatype.bytes date.bytes).toBytes, visibility, timestamp⟩

end DatedCounts
