import DatedCounts.Toml.Value
import DatedCounts.Toml.Word

/-!
# Numbers of a configuration

Digits may have single underscores between them. A decimal number has no zero in front of other
digits. Integers are those of 64 bits with a sign, and a floating-point number must not be too large to
be finite.
-/

namespace DatedCounts.Toml

def digit? (base : Nat) (c : Char) : Option Nat :=
  let n :=
    if '0' ≤ c ∧ c ≤ '9' then c.toNat - '0'.toNat
    else if 'a' ≤ c ∧ c ≤ 'f' then c.toNat - 'a'.toNat + 10
    else if 'A' ≤ c ∧ c ≤ 'F' then c.toNat - 'A'.toNat + 10
    else base
  if n < base then some n else none

/-- Reads on from some digits, the last of them first, up to a character that is neither a digit nor
an underscore. -/
def readDigits (base : Nat) (zerosLead : Bool) :
    (read : List Nat) → (afterMark : Bool) → List Char → Option (List Nat × List Char)
  | read, afterMark, [] => if read.isEmpty || afterMark then none else some (read.reverse, [])
  | read, afterMark, c :: rest =>
    match digit? base c with
    | some d =>
      if !zerosLead && read.getLast? == some 0 then none
      else readDigits base zerosLead (d :: read) false rest
    | none =>
      if c = '_' then
        if read.isEmpty || afterMark then none else readDigits base zerosLead read true rest
      else if read.isEmpty || afterMark then none else some (read.reverse, c :: rest)

def numberOf (base : Nat) (digits : List Nat) : Nat := digits.foldl (fun n d => n * base + d) 0

def signed : List Char → Bool × List Char
  | '-' :: rest => (true, rest)
  | cs => (false, cs)

def integer? (base : Nat) (word : List Char) : Option Value := do
  let (negative, cs) := if base = 10 then signed word else (false, word)
  let (digits, rest) ← readDigits base (base != 10) [] false cs
  let n : Int := if negative then -numberOf base digits else numberOf base digits
  if rest.isEmpty && Int64.minValue.toInt ≤ n && n ≤ Int64.maxValue.toInt then some (.integer n)
  else none

/-- Whether decimal digits times a power of ten round to a finite number of 64 bits. A long exponent
is compared before the power is formed. -/
def isFinite (digits : List Nat) (exponent : Int) : Bool :=
  let n := numberOf 10 digits
  let bound := Nat.pow 2 1024 - Nat.pow 2 970
  if n = 0 || digits.length + exponent ≤ 308 then true
  else if 400 < exponent then false
  else n * Nat.pow 10 exponent.toNat < bound * Nat.pow 10 (-exponent).toNat

/-- Reads the exponent of a number, of which the letter has been read. A plus sign ends the word that
the letter is in, so the digits after it are in the rest. -/
def readExponent (word rest : List Char) : Option (Int × List Char) :=
  match word with
  | [] => do
    let rest := if rest.head? = some '+' then rest.tail else rest
    let (digits, rest) ← readDigits 10 true [] false rest
    some (numberOf 10 digits, rest)
  | _ => do
    let (negative, cs) := signed word
    let (digits, left) ← readDigits 10 true [] false cs
    let n := numberOf 10 digits
    if left.isEmpty then some (if negative then -n else n, rest) else none

/-- Reads a floating-point number from its first word, the word after a point if there is one, and the
rest after these. -/
def readFloat (word : List Char) (afterPoint : Option (List Char)) (rest : List Char) :
    Option (Value × List Char) := do
  let (_, cs) := signed word
  let (whole, left) ← readDigits 10 false [] false cs
  let (fraction, left) ← match afterPoint with
    | none => some ([], left)
    | some cs => if left.isEmpty then readDigits 10 true [] false cs else none
  let (exponent, rest) ← match left with
    | [] => some (0, rest)
    | c :: left => if c = 'e' ∨ c = 'E' then readExponent left rest else none
  if isFinite (whole ++ fraction) (exponent - fraction.length) then some (.float, rest) else none

def readNumber (word rest : List Char) : Option (Value × List Char) :=
  match word with
  | '0' :: 'x' :: digits => (integer? 16 digits).map (·, rest)
  | '0' :: 'o' :: digits => (integer? 8 digits).map (·, rest)
  | '0' :: 'b' :: digits => (integer? 2 digits).map (·, rest)
  | _ =>
    if word.contains 'e' || word.contains 'E' then readFloat word none rest
    else if rest.head? = some '.' then
      let (fraction, rest) := readWord rest.tail
      readFloat word (some fraction) rest
    else if (signed word).2 = ['i', 'n', 'f'] ∨ (signed word).2 = ['n', 'a', 'n'] then
      some (.float, rest)
    else (integer? 10 word).map (·, rest)

end DatedCounts.Toml
