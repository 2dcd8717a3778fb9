import DatedCounts.Encoding.Value
import DatedCounts.Key.Qualifier
import DatedCounts.Options

/-!
# Text dumps of records

A dump holds one record on each line, in seven fields with tabs between them: row, family, datatype,
date, visibility, timestamp and value. A record with a date is raw and its value is a count. A record
without a date is aggregated and its value is a list of dates and counts. Blank lines and lines that
begin with `#` hold no record.
-/

namespace DatedCounts.Dump

/-- The lines of a text. A line break ends a line, and the last line may lack one. -/
def lines (content : Bytes) : List Bytes :=
  let parts := pieces (0x0A : UInt8) content
  if parts.getLast? = some [] then parts.dropLast else parts

def trimReturns (line : List Char) : List Char :=
  (line.reverse.dropWhile fun c => c == '\r').reverse

def holdsNoRecord (line : List Char) : Bool := (trimBlank line).isEmpty || line.head? == some '#'

def readNumber (lineNumber : Nat) (field : List Char) : Except Error UInt64 :=
  (Numeral.parse field).mapError (.lineNumeral lineNumber)

def readEntry (lineNumber : Nat) (item : List Char) : Except Error (Text × Count) :=
  match cutAt? ':' item with
  | some (date, count) => (readNumber lineNumber count).map fun count => (.ofChars date, count)
  | none => .error (.lineEntry lineNumber (.ofList item))

def readMap (lineNumber : Nat) (field : List Char) : Except Error DateMap :=
  ((Options.listItems field).mapM (readEntry lineNumber)).map DateMap.ofList

def readLine (lineNumber : Nat) (line : List Char) : Except Error Record :=
  match pieces '\t' line with
  | [row, family, datatype, date, visibility, timestamp, value] => do
    let timestamp ← readNumber lineNumber (trimBlank timestamp)
    let key (qualifier : Bytes) : Key :=
      ⟨Utf8.encode row, Utf8.encode family, qualifier, Utf8.encode visibility, timestamp⟩
    if date.isEmpty then
      let m ← readMap lineNumber value
      .ok (key (Utf8.encode datatype), m.encode)
    else
      let count ← readNumber lineNumber (trimBlank value)
      .ok (key (Qualifier.raw (Utf8.encode datatype) (Utf8.encode date)).toBytes, Count.encode count)
  | fields => .error (.fieldCount lineNumber fields.length)

/-- The records on lines that are counted from `lineNumber` on. -/
def readLines (file : String) : (lineNumber : Nat) → List Bytes → Except Error (List Record)
  | _, [] => .ok []
  | lineNumber, line :: rest =>
    match Utf8.decode line with
    | .error fault => .error (.lineNotText fault file)
    | .ok line =>
      let line := trimReturns line
      if holdsNoRecord line then readLines file (lineNumber + 1) rest
      else do
        let record ← readLine lineNumber line
        let records ← readLines file (lineNumber + 1) rest
        .ok (record :: records)

def read (file : String) (content : Bytes) : Except Error (List Record) :=
  readLines file 1 (lines content)

end DatedCounts.Dump
