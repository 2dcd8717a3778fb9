/-!
# Words of a configuration

Bare keys, truth values and the parts of numbers and dates are words of letters, digits, hyphens and
underscores. A reader takes the characters that are left and returns what it read with the characters
after it, or nothing when the text is not of the form that it reads.
-/

namespace DatedCounts.Toml

def isWordChar (c : Char) : Bool := c.isAlphanum || c == '-' || c == '_'

/-- The longest word at the head of a text, which may be empty. -/
def readWord (cs : List Char) : List Char × List Char := cs.span isWordChar

def skipWord (cs : List Char) : Option (List Char) :=
  match readWord cs with
  | ([], _) => none
  | (_, rest) => some rest

def skipSpaces (cs : List Char) : List Char := cs.dropWhile fun c => c == ' ' || c == '\t'

end DatedCounts.Toml
