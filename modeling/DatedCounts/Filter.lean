import DatedCounts.Filter.Config
import DatedCounts.Key.Qualifier

/-!
# Filters

A filter accepts raw records of some datatypes whose dates lie in a window. With every rejection it
gives a hint, a later key below which nothing more is accepted, so that a reader can pass over all keys
before it at once.
-/

namespace DatedCounts

/-- A valid filter. Its dates are compared by their bytes. -/
structure Filter where
  datatypes : OrderedSet Bytes
  first : Bytes
  last : Bytes
  deriving DecidableEq

namespace Filter

def ofConfig (config : Config) : Except Error Filter :=
  config.window.map fun (first, last) =>
    ⟨config.datatypes, Utf8.encode first.digits, Utf8.encode last.digits⟩

def acceptsDatatype (filter : Filter) (datatype : Bytes) : Bool :=
  filter.datatypes.isEmpty || filter.datatypes.contains datatype

inductive Decision where
  | accept
  | reject (hint : Key)
  deriving DecidableEq, Repr

def decision (filter : Filter) (key : Key) (datatype date : Bytes) : Decision :=
  let cellOf (datatype : Bytes) :=
    Key.firstOf key.row key.family (Qualifier.raw datatype filter.first).toBytes
  if !filter.acceptsDatatype datatype then
    match filter.datatypes.next? datatype with
    | some next => .reject (cellOf next)
    | none => .reject (Key.pastFamily key.row key.family)
  else if (compare date filter.first).isLT then .reject (cellOf datatype)
  else if (compare date filter.last).isGT then
    .reject (Key.pastQualifiers key.row key.family (Qualifier.raw datatype []).toBytes)
  else .accept

/-- The decision on a key, which must be the key of a raw record. -/
def check (filter : Filter) (key : Key) : Except Error Decision :=
  (Qualifier.rawParts key.qualifier).map fun (datatype, date) => filter.decision key datatype date

def describe (filter : Filter) : String :=
  let datatypes := ",".intercalate (filter.datatypes.toList.map Utf8.lossy)
  s!"{Utf8.lossy filter.first}..={Utf8.lossy filter.last} [{datatypes}]"

end Filter

end DatedCounts
