import DatedCounts.Toml.Word

/-!
# Dates of a configuration

A word with a hyphen or the letter that separates day and hour begins a date, and so does a word before
a colon. No setting is a date, so the parts of a date are passed over and not looked at.
-/

namespace DatedCounts.Toml

def hasNegativeExponent : List Char → Bool
  | c :: '-' :: rest => c == 'e' || c == 'E' || hasNegativeExponent ('-' :: rest)
  | _ :: rest => hasNegativeExponent rest
  | [] => false

/-- Whether a word begins a date whatever comes after it. -/
def beginsDate (word : List Char) : Bool :=
  word.contains 'T' || word.contains 't' || (word.tail.contains '-' && !hasNegativeExponent word)

/-- Passes over a mark and the word after it, if the mark comes next. -/
def skipMarked (mark : Char) : List Char → Option (List Char)
  | c :: rest => if c = mark then skipWord rest else some (c :: rest)
  | [] => some []

/-- Passes over the rest of a time, of which the hour and a colon have been read: minute and second, and
maybe a fraction and an offset. -/
def skipTime (cs : List Char) : Option (List Char) := do
  let rest ← skipWord cs
  if rest.head? = some ':' then
    let rest ← skipWord rest.tail
    let rest ← skipMarked '.' rest
    let rest ← skipMarked '+' rest
    skipMarked ':' rest
  else none

def skipHour : List Char → List Char
  | ' ' :: rest => (skipWord rest).getD (' ' :: rest)
  | cs => cs

/-- Passes over the rest of a date, of which the first word has been read, and maybe a colon. -/
def skipDate (afterColon : Bool) (cs : List Char) : Option (List Char) :=
  let cs := skipHour cs
  if afterColon then skipTime cs else if cs.head? = some ':' then skipTime cs.tail else some cs

end DatedCounts.Toml
