import DatedCounts.Ordered.Map

/-!
# Ordered sets

A finite set is an ordered map to the one-point type, so its members are listed in strictly ascending
order and a set has one representation.
-/

namespace DatedCounts

universe u

/-- A finite set whose members are listed in strictly ascending order. -/
@[ext] structure OrderedSet (α : Type u) [Ord α] where
  toMap : OrderedMap α Unit

namespace OrderedSet

variable {α : Type u} [Ord α]

instance [DecidableEq α] : DecidableEq (OrderedSet α) := fun s t =>
  decidable_of_iff (s.toMap = t.toMap) ⟨OrderedSet.ext, fun h => h ▸ rfl⟩

instance : EmptyCollection (OrderedSet α) := ⟨⟨∅⟩⟩
instance : Inhabited (OrderedSet α) := ⟨∅⟩

def toList (s : OrderedSet α) : List α := s.toMap.keys

def isEmpty (s : OrderedSet α) : Bool := s.toMap.isEmpty

def contains (s : OrderedSet α) (x : α) : Bool := s.toMap.contains x

/-- The least member above `x`. -/
def next? (s : OrderedSet α) (x : α) : Option α := s.toList.find? fun y => (compare x y).isLT

theorem ascending (s : OrderedSet α) : s.toList.Pairwise fun a b => compare a b = .lt :=
  List.pairwise_map.2 s.toMap.ascending

variable [Std.TransOrd α]

def insert (s : OrderedSet α) (x : α) : OrderedSet α := ⟨s.toMap.insert x ()⟩

def insertAll (s : OrderedSet α) (members : List α) : OrderedSet α := members.foldl insert s

def ofList (members : List α) : OrderedSet α := (∅ : OrderedSet α).insertAll members

end OrderedSet

end DatedCounts
