import DatedCounts.Encoding.Fault

/-!
# Numbers of variable length

A number is written in base 128 with the lowest digit first. Every byte but the last has 128 added to
its digit. Ten digits hold all numbers below `2 ^ 64`, if the tenth is at most one; a reader takes
leading zeros too, as long as they fit into ten bytes.
-/

namespace DatedCounts.Varint

open Encoding

def encode (n : Nat) : Bytes :=
  if n < 128 then [.ofNat n] else .ofNat (128 + n % 128) :: encode (n / 128)
termination_by n

def appendTo (buffer : Bytes) (n : Nat) : Bytes × Nat :=
  if n < 128 then (buffer ++ [.ofNat n], 1)
  else
    let (buffer, added) := appendTo (buffer ++ [.ofNat (128 + n % 128)]) (n / 128)
    (buffer, added + 1)
termination_by n

def size (n : Nat) : Nat := n.log2 / 7 + 1

/-- Reads the digits from place `place` on and adds their worth to `value`. The whole input is kept
for the report of a fault. -/
def readDigits (whole : Bytes) (place value : Nat) : Bytes → Except Fault (Nat × Bytes)
  | [] => .error (if place = 10 then .unterminated else .truncated place)
  | byte :: rest =>
    let digit := byte.toNat % 128
    if place = 10 then .error .unterminated
    else if place = 9 ∧ 1 < digit then .error (.overflow (whole.take 10))
    else if byte.toNat < 128 then .ok (value + digit <<< (7 * place), rest)
    else readDigits whole (place + 1) (value + digit <<< (7 * place)) rest

def decode (bytes : Bytes) : Except Fault (UInt64 × Bytes) :=
  (readDigits bytes 0 0 bytes).map fun (value, rest) => (.ofNat value, rest)

end DatedCounts.Varint
