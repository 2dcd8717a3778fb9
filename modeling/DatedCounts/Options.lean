import DatedCounts.Error
import DatedCounts.Pieces
import DatedCounts.Text.Blank

/-!
# Named options

Settings can be given as options with a name and a text. White space around a value means nothing, and
neither does white space around the items of a list.
-/

namespace DatedCounts

/-- Named values. The first value of a name counts. -/
abbrev Options := List (String × String)

namespace Options

def trimmed (s : String) : String := .ofList (trimBlank s.toList)

/-- The items of a list with commas between them. Empty items are left out. -/
def listItems (cs : List Char) : List (List Char) :=
  ((pieces ',' cs).map trimBlank).filter fun item => !item.isEmpty

/-- The truth value that a text names in letters of either case. No other character has one of these
letters as its lower-case form. -/
def readBool (name value : String) : Except Error Bool :=
  let lower := (trimBlank value.toList).map Char.toLower
  if lower = ['t', 'r', 'u', 'e'] then .ok true
  else if lower = ['f', 'a', 'l', 's', 'e'] then .ok false
  else .error (.notBoolean name value)

def readMaxNext (value : String) : Except Error Nat :=
  ((Numeral.parse (trimBlank value.toList)).map UInt64.toNat).mapError (.maxNextCount · value)

end Options

end DatedCounts
