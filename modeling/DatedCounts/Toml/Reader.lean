import DatedCounts.Pieces
import DatedCounts.Toml.Date
import DatedCounts.Toml.Quoted

/-!
# Reading a configuration

A document is a sequence of lines: headers in brackets, keys with values, comments and blank lines.
Arrays may run over lines. A key may have several parts with points between them, which name a table
and a key in it. The headers of a document must not contradict one another.
-/

namespace DatedCounts.Toml

/-- Every line break as a single character. -/
def foldLines : List Char → List Char
  | '\r' :: '\n' :: rest => '\n' :: foldLines rest
  | c :: rest => c :: foldLines rest
  | [] => []

def isRemark (c : Char) : Bool := c == '\t' || ' ' ≤ c

def endLine (cs : List Char) : Option (List Char) :=
  let cs := skipSpaces cs
  match if cs.head? = some '#' then cs.dropWhile isRemark else cs with
  | [] => some []
  | '\n' :: rest => some rest
  | _ => none

def skipLines (inComment : Bool) : List Char → List Char
  | [] => []
  | c :: rest =>
    if (inComment && isRemark c) || c == '#' then skipLines true rest
    else if c = ' ' ∨ c = '\t' ∨ c = '\n' then skipLines false rest
    else c :: rest

/-! ### Keys of several parts -/

def readPath : (steps : Nat) → List Char → Option (List String × List Char)
  | 0, _ => none
  | steps + 1, cs => do
    let (key, rest) ← readKey (skipSpaces cs)
    match skipSpaces rest with
    | '.' :: rest =>
      let (path, rest) ← readPath steps rest
      some (key :: path, rest)
    | rest => some ([key], rest)

/-- Entries with one more value at a path. All parts of the path but the last name open tables. -/
def addEntry (value : Value) : (path : List String) → List (String × Value) →
    Option (List (String × Value))
  | [], _ => none
  | [key], entries => some (entries ++ [(key, value)])
  | key :: path, entries =>
    match entries.span fun entry => entry.1 != key with
    | (before, []) => do some (before ++ [(key, .table true (← addEntry value path []))])
    | (before, (_, .table true inner) :: after) => do
      some (before ++ (key, .table true (← addEntry value path inner)) :: after)
    | _ => none

def entriesOf (values : List (List String × Value)) : Option (List (String × Value)) :=
  values.foldlM (fun entries (path, value) => addEntry value path entries) []

/-! ### Values -/

def isNumeric (word : List Char) : Bool :=
  word == ['i', 'n', 'f'] || word == ['n', 'a', 'n'] ||
    match word with
    | [] => false
    | c :: _ => c == '-' || c.isDigit

def readScalar (cs : List Char) : Option (Value × List Char) :=
  let (word, rest) := readWord cs
  if word = ['t', 'r', 'u', 'e'] then some (.boolean true, rest)
  else if word = ['f', 'a', 'l', 's', 'e'] then some (.boolean false, rest)
  else if !isNumeric word then none
  else if beginsDate word then (skipDate false rest).map (.date, ·)
  else if rest.head? = some ':' then (skipDate true rest.tail).map (.date, ·)
  else readNumber word rest

mutual

def readValue : (steps : Nat) → List Char → Option (Value × List Char)
  | 0, _ => none
  | steps + 1, cs =>
    match cs with
    | [] => none
    | c :: rest =>
      if isQuote c then (readQuoted c rest).map fun (s, rest) => (.string s, rest)
      else if c = '[' then (readItems steps rest).map fun (items, rest) => (.array items, rest)
      else if c = '{' then
        match skipSpaces rest with
        | '}' :: rest => some (.table false [], rest)
        | rest => do
          let (values, rest) ← readEntries steps rest
          some (.table false (← entriesOf values), rest)
      else if c = '+' then
        let (word, rest) := readWord rest
        readNumber word rest
      else readScalar cs

/-- Reads the items of an array and its closing bracket. A comma may follow the last item. -/
def readItems : (steps : Nat) → List Char → Option (List Value × List Char)
  | 0, _ => none
  | steps + 1, cs =>
    match skipLines false cs with
    | ']' :: rest => some ([], rest)
    | cs => do
      let (item, rest) ← readValue steps cs
      match skipLines false rest with
      | ',' :: rest =>
        let (items, rest) ← readItems steps rest
        some (item :: items, rest)
      | ']' :: rest => some ([item], rest)
      | _ => none

def readEntries : (steps : Nat) → List Char → Option (List (List String × Value) × List Char)
  | 0, _ => none
  | steps + 1, cs => do
    let (path, rest) ← readPath cs.length cs
    match rest with
    | '=' :: rest =>
      let (value, rest) ← readValue steps (skipSpaces rest)
      match skipSpaces rest with
      | ',' :: rest =>
        let (values, rest) ← readEntries steps rest
        some ((path, value) :: values, rest)
      | '}' :: rest => some ([(path, value)], rest)
      | _ => none
    | _ => none

end

/-! ### Documents -/

inductive Line where
  | header (path : List String) (repeats : Bool)
  | entry (path : List String) (value : Value)

def readHeader (cs : List Char) : Option (Line × List Char) := do
  let repeats := cs.head? == some '['
  let (path, rest) ← readPath cs.length (if repeats then cs.tail else cs)
  match repeats, rest with
  | true, ']' :: ']' :: rest => some (.header path true, rest)
  | false, ']' :: rest => some (.header path false, rest)
  | _, _ => none

def readEntry (cs : List Char) : Option (Line × List Char) := do
  let (path, rest) ← readPath cs.length cs
  match rest with
  | '=' :: rest =>
    let (value, rest) ← readValue (2 * rest.length + 2) (skipSpaces rest)
    some (.entry path value, rest)
  | _ => none

def readLines : (steps : Nat) → List Char → Option (List Line)
  | 0, _ => none
  | steps + 1, cs =>
    match skipLines false cs with
    | [] => some []
    | c :: rest => do
      let (line, rest) ← if c = '[' then readHeader rest else readEntry (c :: rest)
      let lines ← readLines steps (← endLine rest)
      some (line :: lines)

/-- The sections that lines make up after the beginning of the first one. -/
def sections (s : Section) : List Line → Option (List Section)
  | [] => some [s]
  | .header path repeats :: lines => do
    let others ← sections ⟨path, repeats, []⟩ lines
    some (s :: others)
  | .entry path value :: lines => do
    let entries ← addEntry value path s.entries
    sections { s with entries } lines

/-- Whether headers agree with one another, given by their paths below some table and whether they
repeat: no table has two headers, and what one header makes a table no other makes an array of tables.
Paths are looked at for `depth` keys. -/
def agree : (depth : Nat) → List (List String × Bool) → Bool
  | 0, _ => true
  | depth + 1, headers =>
    let own := headers.filter fun header => header.1.isEmpty
    let below (key : String) := headers.filterMap fun (path, repeats) =>
      if path.head? = some key then some (path.tail, repeats) else none
    own.length ≤ 1 && own.all (fun header => !header.2) &&
      (headers.filterMap fun header => header.1.head?).eraseDups.all fun key =>
        match below key with
        | ([], true) :: others =>
          (pieces ([], true) others).all fun item => agree depth (([], false) :: item)
        | others => agree depth others

/-- The whole table of a document. -/
def parse (text : List Char) : Option Table := do
  let cs := foldLines (if text.head? = some '\ufeff' then text.tail else text)
  let document ← sections ⟨[], false, []⟩ (← readLines (cs.length + 1) cs)
  let depth := (document.map fun s => s.path.length).foldl max 0
  if agree (depth + 1) (document.map fun s => (s.path, s.repeats)) then some ⟨document, []⟩ else none

end DatedCounts.Toml
