import DatedCounts.Calendar
import DatedCounts.Encoding.Fault
import DatedCounts.Key
import DatedCounts.Label

/-!
# Errors

What can go wrong, by cause. Every cause has a kind and a message.
-/

namespace DatedCounts

inductive WindowEnd where
  | first
  | last
  deriving DecidableEq, Repr

def WindowEnd.name : WindowEnd → String
  | .first => "start_date"
  | .last => "end_date"

/-- What was advanced past its last record. -/
inductive Reader where
  | store
  | sieve
  | rollup
  deriving DecidableEq, Repr

def Reader.name : Reader → String
  | .store => "cursor"
  | .sieve => "seeking scan"
  | .rollup => "aggregator"

inductive Error where
  | exhausted (reader : Reader)
  | encoding (fault : Encoding.Fault)
  /-- A qualifier is not in raw form. -/
  | noSeparator (qualifier : Bytes)
  | rawDateNotText (fault : Utf8.Fault) (key : Key)
  | label (fault : Label.Fault) (bytes : Bytes)
  /-- Labels were refused for a reason of the combiner's own. -/
  | refused (reason : String)
  | noEarliestDate
  | noLatestDate
  | date (fault : Date.Fault)
  | notBoolean (option value : String)
  | maxNextCount (fault : Numeral.Fault) (value : String)
  | missingDate (which : WindowEnd)
  | windowDate (which : WindowEnd) (fault : Date.Fault)
  | reversedWindow (first last : Date)
  | invalidDatatype (datatype : Bytes)
  | fieldCount (line count : Nat)
  | lineNumeral (line : Nat) (fault : Numeral.Fault)
  | lineEntry (line : Nat) (entry : String)
  /-- A line of a dump is not text. -/
  | lineNotText (fault : Utf8.Fault) (file : String)
  | unreadable (file : String)
  | fileNotText (fault : Utf8.Fault) (file : String)
  /-- A configuration file is not TOML, or not of the expected form. -/
  | configForm (file : String)
  deriving DecidableEq

namespace Error

inductive Kind where
  | fatal
  | malformedEncoding
  | malformedKey
  | visibilityCombine
  | invalidConfig
  | emptyMap
  | invalidFormat
  | invalidFile
  | inputOutput
  deriving DecidableEq, Repr

def Kind.name : Kind → String
  | .fatal => "Fatal"
  | .malformedEncoding => "MalformedEncoding"
  | .malformedKey => "MalformedKey"
  | .visibilityCombine => "VisibilityCombine"
  | .invalidConfig => "InvalidConfig"
  | .emptyMap => "EmptyMap"
  | .invalidFormat => "InvalidFormat"
  | .invalidFile => "InvalidFile"
  | .inputOutput => "IOError"

def kind : Error → Kind
  | exhausted _ => .fatal
  | encoding _ => .malformedEncoding
  | noSeparator _ | rawDateNotText .. => .malformedKey
  | label .. | refused _ => .visibilityCombine
  | notBoolean .. | maxNextCount .. | missingDate _ | windowDate .. | reversedWindow ..
  | invalidDatatype _ => .invalidConfig
  | noEarliestDate | noLatestDate => .emptyMap
  | date _ | fieldCount .. | lineNumeral .. | lineEntry .. | configForm _ => .invalidFormat
  | fileNotText .. => .invalidFile
  | lineNotText .. | unreadable _ => .inputOutput

/-- A date fault, which reads the same on its own and as the cause of another error. -/
def dateMessage : Date.Fault → String
  | .shape s => "date " ++ Quoted.text s ++ " is not yyyyMMdd"
  | .outOfRange s => "input is out of range date:" ++ Quoted.text s

def message : Error → String
  | exhausted reader => s!"advance on exhausted {reader.name}"
  | encoding fault => fault.message
  | noSeparator qualifier => "no separator in qualifier " ++ Quoted.text (Utf8.lossy qualifier)
  | rawDateNotText fault key => s!"{fault.message} {key.describe}"
  | label fault bytes => fault.message bytes
  | refused reason => reason
  | noEarliestDate => "no earliest date in empty map"
  | noLatestDate => "no latest date in empty map"
  | date fault => dateMessage fault
  | notBoolean option value => s!"option {option} expects a boolean, got " ++ Quoted.text value
  | maxNextCount fault value => s!"{fault.message} max.next.count:" ++ Quoted.text value
  | missingDate which => s!"missing {which.name}"
  | windowDate which fault => s!"InvalidFormat: {dateMessage fault} {which.name}"
  | reversedWindow first last =>
    s!"start_date {first.hyphenated} after end_date {last.hyphenated}"
  | invalidDatatype datatype => "invalid datatype " ++ Quoted.bytes datatype
  | fieldCount line count => s!"line {line} expects 7 fields, got {count}"
  | lineNumeral line fault => s!"{fault.message} line {line}"
  | lineEntry line entry => s!"line {line} bad entry " ++ Quoted.text entry
  | lineNotText fault file => s!"{fault.message} file:" ++ Quoted.text file
  | unreadable file => "cannot read file:" ++ Quoted.text file
  | fileNotText fault file => s!"{fault.message} file:" ++ Quoted.text file
  | configForm file => "malformed configuration file:" ++ Quoted.text file

instance : ToString Error := ⟨fun e => s!"{e.kind.name}: {e.message}"⟩

end Error

end DatedCounts
