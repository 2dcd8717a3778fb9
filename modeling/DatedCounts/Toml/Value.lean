/-!
# Values and tables of a configuration

A configuration is written in TOML. A document is a list of sections, each with the path of its header,
and what it holds under a key is found in the sections whose paths begin with that of the key. No
setting is a floating-point number or a date, so these have no content here.
-/

namespace DatedCounts.Toml

inductive Value where
  | string (s : String)
  | integer (n : Int)
  | float
  | date
  | boolean (b : Bool)
  | array (items : List Value)
  /-- A table written as a value. It is open if it was made by keys with points in them, and such keys
  can add to it. -/
  | table (isOpen : Bool) (entries : List (String × Value))

structure Section where
  path : List String
  /-- Whether the header stands in double brackets and makes one more item of an array of tables. -/
  repeats : Bool
  entries : List (String × Value)

/-- The table at a path of a document. -/
structure Table where
  document : List Section
  path : List String

inductive Item where
  | value (v : Value)
  | table (t : Table)
  | tables

def Item.single? : List Item → Option (Option Item)
  | [] => some none
  | [item] => some (some item)
  | _ => none

def Item.named (entries : List (String × Value)) (key : String) : List Item :=
  (entries.filter fun entry => entry.1 == key).map fun entry => .value entry.2

namespace Table

/-- What a table holds under a key: the values given to it, and a table or an array of tables if there
is a header at or below it. The first such header decides which of the two it is. -/
def items (t : Table) (key : String) : List Item :=
  let entries := (t.document.filter fun s => s.path == t.path).flatMap Section.entries
  let path := t.path ++ [key]
  let headed :=
    match t.document.find? fun s => path.isPrefixOf s.path with
    | none => []
    | some s => if s.repeats && s.path == path then [Item.tables] else [.table { t with path }]
  Item.named entries key ++ headed

end Table

namespace Item

/-- The items of some fields. Fields can be given by their keys in a table, or all in order in an
array. A date counts as a table with none of them. -/
def fields? (keys : List String) : Item → Option (List (Option Item))
  | .table t => keys.mapM fun key => single? (t.items key)
  | .value (.table _ entries) => keys.mapM fun key => single? (named entries key)
  | .value .date => some (keys.map fun _ => none)
  | .value (.array items) =>
    if items.length = keys.length then some (items.map (some ∘ .value)) else none
  | _ => none

def string? : Item → Option String
  | .value (.string s) => some s
  | _ => none

def boolean? : Item → Option Bool
  | .value (.boolean b) => some b
  | _ => none

def count? : Item → Option UInt64
  | .value (.integer n) => if 0 ≤ n ∧ n < UInt64.size then some (.ofNat n.toNat) else none
  | _ => none

def strings? : Item → Option (List String)
  | .value (.array items) => items.mapM (string? ∘ .value)
  | _ => none

end Item

end DatedCounts.Toml
