import DatedCounts.Toml.Number

/-!
# Quoted text of a configuration

Text stands between double quotes, where a backslash begins an escape, or between single quotes, where
it does not. Three quotes at either end make a long text, which may hold line breaks. In a long text of
double quotes a backslash at the end of a line takes away the line break and the blanks after it.
-/

namespace DatedCounts.Toml

def isPlain (c : Char) : Bool := c == '\t' || (' ' ≤ c && c != '\x7f')

def charOfHex? (digits : List Char) : Option Char := do
  let n := numberOf 16 (← digits.mapM (digit? 16))
  if n.isValidChar then some (.ofNat n) else none

def escaped? : Char → Option Char
  | '\"' => some '\"'
  | '\\' => some '\\'
  | 'b' => some '\x08'
  | 'f' => some '\x0c'
  | 'n' => some '\n'
  | 'r' => some '\r'
  | 't' => some '\t'
  | _ => none

/-- What the blanks that come next mean: themselves, or the end of a line after a backslash, or the
beginning of the line after that. -/
inductive Blanks where
  | plain
  | endLine
  | beginLine
  deriving DecidableEq

def Blanks.skip? (blanks : Blanks) (c : Char) : Option Blanks :=
  match blanks with
  | .plain => none
  | .endLine => if c = '\n' then some .beginLine else if c = ' ' ∨ c = '\t' then some .endLine else none
  | .beginLine => if c = '\n' ∨ c = ' ' ∨ c = '\t' then some .beginLine else none

/-- Reads a text up to its closing quotes. Up to two quotes more may stand before the three that close a
long text. -/
def readBody (quote : Char) (long : Bool) : Blanks → List Char → Option (List Char × List Char)
  | _, [] => none
  | blanks, c :: rest =>
    match blanks.skip? c with
    | some blanks => readBody quote long blanks rest
    | none =>
      if blanks = .endLine then none
      else if c = quote then
        if !long then some ([], rest)
        else if rest.take 2 = [quote, quote] then
          let more := ((rest.drop 2).take 2).takeWhile fun c => c == quote
          some (more, rest.drop (2 + more.length))
        else (readBody quote long .plain rest).map fun (s, rest) => (c :: s, rest)
      else if c = '\\' ∧ quote = '\"' then
        match rest with
        | 'u' :: d₁ :: d₂ :: d₃ :: d₄ :: rest => do
          let char ← charOfHex? [d₁, d₂, d₃, d₄]
          let (s, rest) ← readBody quote long .plain rest
          some (char :: s, rest)
        | 'U' :: d₁ :: d₂ :: d₃ :: d₄ :: d₅ :: d₆ :: d₇ :: d₈ :: rest => do
          let char ← charOfHex? [d₁, d₂, d₃, d₄, d₅, d₆, d₇, d₈]
          let (s, rest) ← readBody quote long .plain rest
          some (char :: s, rest)
        | letter :: rest =>
          match if long then Blanks.endLine.skip? letter else none with
          | some blanks => readBody quote long blanks rest
          | none => do
            let char ← escaped? letter
            let (s, rest) ← readBody quote long .plain rest
            some (char :: s, rest)
        | [] => none
      else if isPlain c ∨ (long ∧ c = '\n') then
        (readBody quote long .plain rest).map fun (s, rest) => (c :: s, rest)
      else none

def isQuote (c : Char) : Bool := c == '\"' || c == '\''

/-- Reads a text of which the first quote has been read. A line break right after the quotes that open
a long text is not part of it. -/
def readQuoted (quote : Char) (cs : List Char) : Option (String × List Char) :=
  let body :=
    if cs.take 2 = [quote, quote] then
      let cs := cs.drop 2
      readBody quote true .plain (if cs.head? = some '\n' then cs.tail else cs)
    else readBody quote false .plain cs
  body.map fun (s, rest) => (.ofList s, rest)

/-- Reads a key, which is a word or a text that is not long. -/
def readKey (cs : List Char) : Option (String × List Char) :=
  match cs with
  | [] => none
  | c :: rest =>
    if isQuote c then if rest.take 2 = [c, c] then none else readQuoted c rest
    else
      match readWord cs with
      | ([], _) => none
      | (word, rest) => some (.ofList word, rest)

end DatedCounts.Toml
