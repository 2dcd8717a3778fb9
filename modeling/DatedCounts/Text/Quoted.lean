import DatedCounts.Bytes
import DatedCounts.Text.Unprintable

/-!
# Quoted text

Text inside a message stands between quotes, with the quote, the backslash and the characters that do
not show written as escapes. Lists are written between brackets.
-/

namespace DatedCounts.Quoted

/-- How a character is written between two `quote`s. -/
def escape (quote c : Char) : List Char :=
  if c = '\x00' then ['\\', '0']
  else if c = '\t' then ['\\', 't']
  else if c = '\n' then ['\\', 'n']
  else if c = '\r' then ['\\', 'r']
  else if c = '\\' ∨ c = quote then ['\\', c]
  else if isUnprintable c then ['\\', 'u', '\x7b'] ++ Nat.toDigits 16 c.toNat ++ ['\x7d']
  else [c]

def between (quote : Char) (cs : List Char) : String :=
  .ofList (quote :: (cs.flatMap (escape quote) ++ [quote]))

def text (s : String) : String := between '\"' s.toList

/-- A byte between single quotes, as the character of the same number. -/
def byte (b : UInt8) : String := between '\'' [.ofNat b.toNat]

def list (items : List String) : String := "[" ++ ", ".intercalate items ++ "]"

def bytes (bs : Bytes) : String := list (bs.map fun b => toString b.toNat)

end DatedCounts.Quoted
