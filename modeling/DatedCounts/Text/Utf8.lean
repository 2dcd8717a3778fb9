import DatedCounts.Bytes

/-!
# UTF-8

The reader takes one byte at a time. Between characters a byte stands alone or opens a character;
inside a character the next byte must lie in a range that the opening byte fixes, which rules out
overlong forms, surrogates and code points that are too large. A fault is reported at the byte where
the unfinished character began.
-/

namespace DatedCounts.Utf8

def encodeChar (c : Char) : Bytes :=
  let n := c.toNat
  if n < 0x80 then [.ofNat n]
  else if n < 0x800 then [.ofNat (0xC0 + n / 64), .ofNat (0x80 + n % 64)]
  else if n < 0x10000 then
    [.ofNat (0xE0 + n / 4096), .ofNat (0x80 + n / 64 % 64), .ofNat (0x80 + n % 64)]
  else
    [.ofNat (0xF0 + n / 262144), .ofNat (0x80 + n / 4096 % 64), .ofNat (0x80 + n / 64 % 64),
      .ofNat (0x80 + n % 64)]

def encode (cs : List Char) : Bytes := cs.flatMap encodeChar

/-- A character of which some bytes have been read. -/
structure Partial where
  seen : Nat
  /-- The number of bytes still owed, at least one. -/
  owed : Nat
  /-- The least and the greatest byte that may come next. -/
  low : Nat
  high : Nat
  bits : Nat
  deriving DecidableEq, Repr

inductive Opening where
  | single (c : Char)
  | opens (p : Partial)
  | refused
  deriving DecidableEq

def opening (byte : UInt8) : Opening :=
  let b := byte.toNat
  if b < 0x80 then .single (.ofNat b)
  else if b < 0xC2 then .refused
  else if b < 0xE0 then .opens ⟨1, 1, 0x80, 0xBF, b - 0xC0⟩
  else if b = 0xE0 then .opens ⟨1, 2, 0xA0, 0xBF, 0⟩
  else if b = 0xED then .opens ⟨1, 2, 0x80, 0x9F, 0xD⟩
  else if b < 0xF0 then .opens ⟨1, 2, 0x80, 0xBF, b - 0xE0⟩
  else if b = 0xF0 then .opens ⟨1, 3, 0x90, 0xBF, 0⟩
  else if b < 0xF4 then .opens ⟨1, 3, 0x80, 0xBF, b - 0xF0⟩
  else if b = 0xF4 then .opens ⟨1, 3, 0x80, 0x8F, 4⟩
  else .refused

inductive Continuation where
  | completes (c : Char)
  | extends (p : Partial)
  | refused
  deriving DecidableEq

def Partial.continuation (p : Partial) (byte : UInt8) : Continuation :=
  let b := byte.toNat
  if b < p.low ∨ p.high < b then .refused
  else if p.owed = 1 then .completes (.ofNat (p.bits * 64 + (b - 0x80)))
  else .extends ⟨p.seen + 1, p.owed - 1, 0x80, 0xBF, p.bits * 64 + (b - 0x80)⟩

/-- Where and how a byte string stops being UTF-8. -/
inductive Fault where
  /-- The `length` bytes from `index` on begin no character. -/
  | malformed (index length : Nat)
  /-- The byte string ends inside the character that begins at `index`. -/
  | incomplete (index : Nat)
  deriving DecidableEq, Repr

def Fault.message : Fault → String
  | .malformed index length => s!"invalid utf-8 sequence of {length} bytes from index {index}"
  | .incomplete index => s!"incomplete utf-8 byte sequence from index {index}"

/-- Reads the bytes from `index` on, with the character they may be inside of. -/
def decodeFrom (index : Nat) : Option Partial → Bytes → Except Fault (List Char)
  | none, [] => .ok []
  | some p, [] => .error (.incomplete (index - p.seen))
  | none, byte :: rest =>
    match opening byte with
    | .single c => (decodeFrom (index + 1) none rest).map (c :: ·)
    | .opens p => decodeFrom (index + 1) (some p) rest
    | .refused => .error (.malformed index 1)
  | some p, byte :: rest =>
    match p.continuation byte with
    | .completes c => (decodeFrom (index + 1) none rest).map (c :: ·)
    | .extends q => decodeFrom (index + 1) (some q) rest
    | .refused => .error (.malformed (index - p.seen) p.seen)

def decode (bytes : Bytes) : Except Fault (List Char) := decodeFrom 0 none bytes

/-- The character that stands for bytes which are none. -/
def replacement : Char := '\ufffd'

/-- Reads all bytes, with one replacement character for each longest beginning of a character that
the next byte does not continue, and for each byte that begins none. -/
def lossyFrom : Option Partial → Bytes → List Char
  | none, [] => []
  | some _, [] => [replacement]
  | none, byte :: rest =>
    match opening byte with
    | .single c => c :: lossyFrom none rest
    | .opens p => lossyFrom (some p) rest
    | .refused => replacement :: lossyFrom none rest
  | some p, byte :: rest =>
    match p.continuation byte with
    | .completes c => c :: lossyFrom none rest
    | .extends q => lossyFrom (some q) rest
    | .refused =>
      match opening byte with
      | .single c => replacement :: c :: lossyFrom none rest
      | .opens q => replacement :: lossyFrom (some q) rest
      | .refused => replacement :: replacement :: lossyFrom none rest

def lossy (bytes : Bytes) : String := .ofList (lossyFrom none bytes)

end DatedCounts.Utf8
