import DatedCounts.Options
import DatedCounts.Ordered.Set

/-!
# Filter settings

A filter is set up by a set of datatypes, two dates and the number of records to step over before the
source is positioned anew. Settings are valid when both dates are there and in order and no datatype is
empty or holds the separator of a qualifier. They can be given as named options.
-/

namespace DatedCounts.Filter

structure Config where
  /-- The accepted datatypes, where none means all. -/
  datatypes : OrderedSet Bytes
  first : Option String
  last : Option String
  maxNext : Nat
  deriving DecidableEq

namespace Config

instance : Inhabited Config := ⟨⟨∅, none, none, 0⟩⟩

def dateAt (which : WindowEnd) (s : Option String) : Except Error Date :=
  match s with
  | none => .error (.missingDate which)
  | some s => (Date.parse s).mapError (.windowDate which)

def isDatatype (datatype : Bytes) : Bool := !datatype.isEmpty && !datatype.contains 0

/-- The first and the last date that valid settings accept. -/
def window (config : Config) : Except Error (Date × Date) := do
  let first ← dateAt .first config.first
  let last ← dateAt .last config.last
  if compare first last = .gt then .error (.reversedWindow first last)
  else
    match config.datatypes.toList.find? fun datatype => !isDatatype datatype with
    | some datatype => .error (.invalidDatatype datatype)
    | none => .ok (first, last)

def ofOptions (options : Options) : Except Error Config := do
  let datatypes := (options.lookup "datatypes").elim [] fun s => Options.listItems s.toList
  let maxNext ← (options.lookup "max.next.count").elim (.ok 0) Options.readMaxNext
  let config : Config := {
    datatypes := .ofList (datatypes.map Utf8.encode)
    first := (options.lookup "start.date").map Options.trimmed
    last := (options.lookup "end.date").map Options.trimmed
    maxNext }
  let _ ← config.window
  .ok config

def describeDate : Option String → String
  | none => "None"
  | some s => "Some(" ++ Quoted.text s ++ ")"

def describe (config : Config) : String :=
  let datatypes := config.datatypes.toList.map fun datatype => Quoted.text (Utf8.lossy datatype)
  s!"filter::Config<datatypes:{Quoted.list datatypes} window:{describeDate config.first}" ++
    s!"..={describeDate config.last} max_next_count:{config.maxNext}>"

end Config

end DatedCounts.Filter
