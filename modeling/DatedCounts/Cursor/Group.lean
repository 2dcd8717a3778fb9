import DatedCounts.Encoding.Value
import DatedCounts.Error
import DatedCounts.Key.Qualifier

/-!
# Groups of records

The records of one row, family and datatype make up a group. A group adds up their counts by date, for
each visibility apart, and yields one record for each visibility, or a single record under a combined
label.
-/

namespace DatedCounts

/-- Makes one label of the distinct labels of a group, in ascending order, or refuses to. -/
abbrev Combiner := List Bytes → Except Error Bytes

def Record.counts (record : Record) : Except Error DateMap :=
  match record.1.parts with
  | .raw _ date =>
    match Text.ofBytes date with
    | .error fault => .error (.rawDateNotText fault record.1)
    | .ok date => ((Count.decode record.2).map (DateMap.single date)).mapError .encoding
  | .aggregated _ => (DateMap.decode record.2).mapError .encoding

/-- The sums of a group so far. -/
structure Group where
  row : Bytes
  family : Bytes
  datatype : Bytes
  /-- For each visibility, the counts by date and the greatest timestamp. -/
  labels : OrderedMap Bytes (DateMap × UInt64)
  deriving DecidableEq

namespace Group

def ofKey (key : Key) : Group := ⟨key.row, key.family, key.parts.datatype, ∅⟩

def holds (group : Group) (key : Key) : Bool :=
  key.row == group.row && key.family == group.family && key.parts.datatype == group.datatype

def add (group : Group) (key : Key) (counts : DateMap) : Group :=
  let labels := group.labels.update key.visibility fun present =>
    let (sums, timestamp) := present.getD (∅, 0)
    (sums.merge counts, max timestamp key.timestamp)
  { group with labels }

def record (group : Group) (visibility : Bytes) (sums : DateMap) (timestamp : UInt64) : Record :=
  (⟨group.row, group.family, group.datatype, visibility, timestamp⟩, sums.encode)

/-- The sums over all visibilities, and the greatest timestamp. -/
def union (group : Group) : DateMap × UInt64 :=
  group.labels.values.foldl (fun (sums, timestamp) (others, other) =>
    (sums.merge others, max timestamp other)) (∅, 0)

def recordsByLabel (group : Group) : List Record :=
  group.labels.toList.map fun (visibility, sums, timestamp) => group.record visibility sums timestamp

def records (group : Group) : Option Combiner → Except Error (List Record)
  | none => .ok group.recordsByLabel
  | some combine => (combine group.labels.keys).map fun visibility =>
    [group.record visibility group.union.1 group.union.2]

end Group

end DatedCounts
