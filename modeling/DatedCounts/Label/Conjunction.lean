import DatedCounts.Error
import DatedCounts.Ordered.Set

/-!
# The conjunction of labels

A record made of records under several labels is readable by whoever may read all of them. Its label
joins the operands of the labels by `&`, each operand once and in order. A label that is a disjunction
is an operand of it in parentheses, and an empty label adds nothing.
-/

namespace DatedCounts.Label

/-- The operands that an expression adds to a conjunction. -/
def Expr.conjuncts (e : Expr) : List Bytes :=
  match e with
  | .joined .all operands => operands.map toBytes
  | .joined .any _ => [(Expr.group e).toBytes]
  | _ => [e.toBytes]

def conjuncts (labels : List Bytes) : Except Error (OrderedSet Bytes) :=
  (labels.filter fun label => !label.isEmpty).foldlM (fun operands label =>
    match parse label with
    | .ok e => .ok (operands.insertAll e.conjuncts)
    | .error fault => .error (.label fault label)) ∅

def conjoin (labels : List Bytes) : Except Error Bytes :=
  (conjuncts labels).map fun operands => [Joint.all.byte].intercalate operands.toList

end DatedCounts.Label
