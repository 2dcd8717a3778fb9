import DatedCounts.Text.Quoted
import DatedCounts.Text.Utf8

/-!
# Visibility labels

A label is empty or an expression: one operand, or two or more joined all by `&` or all by `|`. An
operand is a term or an expression in parentheses. A label is read into a tree that keeps its
parentheses, so writing the tree gives the label back.
-/

namespace DatedCounts.Label

/-- What joins the operands of an expression. -/
inductive Joint where
  | all
  | any
  deriving DecidableEq, Repr

def Joint.byte : Joint → UInt8
  | .all => 0x26
  | .any => 0x7C

def Joint.ofByte? (b : UInt8) : Option Joint :=
  if b = Joint.all.byte then some .all else if b = Joint.any.byte then some .any else none

def openParen : UInt8 := 0x28

def closeParen : UInt8 := 0x29

/-- A label that is not empty. -/
inductive Expr where
  | term (bytes : Bytes)
  | group (inner : Expr)
  | joined (joint : Joint) (operands : List Expr)
  deriving Repr

/-- The expression of a chain of operands. A chain without a joint has one operand. -/
def Expr.ofChain : Option Joint → List Expr → Expr
  | some joint, operands => .joined joint operands
  | none, operands => operands.headD (.term [])

def Expr.toBytes : Expr → Bytes
  | .term bytes => bytes
  | .group inner => openParen :: (inner.toBytes ++ [closeParen])
  | .joined joint operands => [joint.byte].intercalate (operands.map toBytes)

/-- Letters, digits and five marks make up terms. -/
def isTermByte (b : UInt8) : Bool :=
  (0x41 ≤ b && b ≤ 0x5A) || (0x61 ≤ b && b ≤ 0x7A) || (0x30 ≤ b && b ≤ 0x39) ||
    b == 0x5F || b == 0x2D || b == 0x3A || b == 0x2E || b == 0x2F

def isMark (b : UInt8) : Bool :=
  b == Joint.all.byte || b == Joint.any.byte || b == openParen || b == closeParen

/-- Why a byte string is no expression, with the offset of the byte where reading stopped. -/
inductive Fault where
  | emptyTerm (offset : Nat)
  | invalidTerm (offset : Nat)
  | unclosed
  | mixedJoints (offset : Nat)
  | unexpected (byte : UInt8) (offset : Nat)
  | unopened (offset : Nat)
  deriving DecidableEq, Repr

def Fault.message (label : Bytes) (fault : Fault) : String :=
  let quoted := Quoted.text (Utf8.lossy label)
  match fault with
  | .emptyTerm offset => s!"empty term at {offset} in {quoted}"
  | .invalidTerm offset => s!"invalid term at {offset} in {quoted}"
  | .unclosed => s!"missing ')' in {quoted}"
  | .mixedJoints offset => s!"mixed '&' and '|' at {offset} in {quoted}"
  | .unexpected byte offset => "unexpected " ++ Quoted.byte byte ++ s!" at {offset} in {quoted}"
  | .unopened offset => s!"unbalanced ')' at {offset} in {quoted}"

/-! ### Reading -/

/-- A proper end of a byte string, which is what is left after reading some of it. -/
abbrev Rest (bytes : Bytes) := { rest : Bytes // rest.length < bytes.length }

def readTerm (length : Nat) (first : UInt8) (others : Bytes) :
    Except Fault (Expr × Rest (first :: others)) :=
  if isMark first then .error (.invalidTerm (length - (others.length + 1)))
  else
    let term := first :: others.takeWhile fun b => !isMark b
    if term.all isTermByte then
      .ok (.term term, ⟨others.dropWhile fun b => !isMark b,
        Nat.lt_succ_of_le (List.dropWhile_suffix _).length_le⟩)
    else .error (.invalidTerm (length - (others.length + 1)))

mutual

/-- Reads a term or an expression in parentheses. The offset of a byte is the number of bytes of the
label that are not left from it on. -/
def readOperand (length : Nat) (bytes : Bytes) : Except Fault (Expr × Rest bytes) :=
  match bytes with
  | [] => .error (.emptyTerm length)
  | first :: others =>
    if first = openParen then
      match readChain length none others with
      | .error fault => .error fault
      | .ok (_, _, ⟨[], _⟩) => .error .unclosed
      | .ok (joint, operands, ⟨close :: rest, h⟩) =>
        if close = closeParen then
          .ok (.group (.ofChain joint operands), ⟨rest, by simp at h ⊢; omega⟩)
        else .error .unclosed
    else readTerm length first others
termination_by (bytes.length, 0)

/-- Reads operands up to the end or to a closing parenthesis, all joined by the joint before them. -/
def readChain (length : Nat) (joint : Option Joint) (bytes : Bytes) :
    Except Fault (Option Joint × List Expr × Rest bytes) :=
  match readOperand length bytes with
  | .error fault => .error fault
  | .ok (operand, ⟨[], h⟩) => .ok (joint, [operand], ⟨[], h⟩)
  | .ok (operand, ⟨next :: rest, h⟩) =>
    match Joint.ofByte? next with
    | some found =>
      if joint.any (· ≠ found) then .error (.mixedJoints (length - (rest.length + 1)))
      else
        match readChain length (some found) rest with
        | .error fault => .error fault
        | .ok (joint, operands, ⟨rest', h'⟩) =>
          .ok (joint, operand :: operands, ⟨rest', Nat.lt_trans (Nat.lt_succ_of_lt h') h⟩)
    | none =>
      if next = closeParen then .ok (joint, [operand], ⟨next :: rest, h⟩)
      else .error (.unexpected next (length - (rest.length + 1)))
termination_by (bytes.length, 1)
decreasing_by
  · exact .right _ (by decide)
  · exact .left _ _ (Nat.lt_trans (Nat.lt_succ_self _) h)

end

def parse (label : Bytes) : Except Fault Expr :=
  match readChain label.length none label with
  | .error fault => .error fault
  | .ok (joint, operands, ⟨[], _⟩) => .ok (.ofChain joint operands)
  | .ok (_, _, ⟨_ :: rest, _⟩) => .error (.unopened (label.length - (rest.length + 1)))

def isValid (label : Bytes) : Bool :=
  label.isEmpty ||
    match parse label with
    | .ok _ => true
    | .error _ => false

end DatedCounts.Label
