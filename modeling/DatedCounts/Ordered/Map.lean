/-!
# Ordered maps

A finite map is kept as the list of its entries in strictly ascending key order. The list is the
whole of the map: two maps with the same entries are equal, whatever the order of the insertions.
-/

namespace DatedCounts

universe u v

/-- A finite map whose entries are listed in strictly ascending key order. -/
@[ext] structure OrderedMap (α : Type u) (β : Type v) [Ord α] where
  toList : List (α × β)
  ascending : toList.Pairwise fun a b => compare a.1 b.1 = .lt

namespace OrderedMap

variable {α : Type u} {β : Type v} [Ord α]

instance [DecidableEq α] [DecidableEq β] : DecidableEq (OrderedMap α β) := fun s t =>
  decidable_of_iff (s.toList = t.toList) ⟨OrderedMap.ext, fun h => h ▸ rfl⟩

def empty : OrderedMap α β := ⟨[], .nil⟩

instance : Inhabited (OrderedMap α β) := ⟨empty⟩
instance : EmptyCollection (OrderedMap α β) := ⟨empty⟩

def size (m : OrderedMap α β) : Nat := m.toList.length

def isEmpty (m : OrderedMap α β) : Bool := m.toList.isEmpty

def keys (m : OrderedMap α β) : List α := m.toList.map (·.1)

def values (m : OrderedMap α β) : List β := m.toList.map (·.2)

def get? (m : OrderedMap α β) (key : α) : Option β :=
  (m.toList.find? fun entry => (compare key entry.1).isEq).map (·.2)

def contains (m : OrderedMap α β) (key : α) : Bool := (m.get? key).isSome

def filterKeys (p : α → Bool) (m : OrderedMap α β) : OrderedMap α β :=
  ⟨m.toList.filter fun entry => p entry.1, m.ascending.filter _⟩

def erase (m : OrderedMap α β) (key : α) : OrderedMap α β :=
  m.filterKeys fun k => !(compare key k).isEq

@[simp] theorem toList_empty : (empty : OrderedMap α β).toList = [] := rfl

/-! ### Insertion -/

/-- Puts an entry in its place in a list of entries in ascending key order. -/
def place (key : α) (value : β) : List (α × β) → List (α × β)
  | [] => [(key, value)]
  | entry :: rest =>
    match compare key entry.1 with
    | .lt => (key, value) :: entry :: rest
    | .eq => (key, value) :: rest
    | .gt => entry :: place key value rest

theorem mem_place {key : α} {value : β} {entry : α × β} {entries : List (α × β)}
    (h : entry ∈ place key value entries) : entry = (key, value) ∨ entry ∈ entries := by
  induction entries with
  | nil => simpa [place] using h
  | cons first rest ih =>
    simp only [place] at h
    split at h <;> grind

theorem place_ascending [Std.TransOrd α] (key : α) (value : β) {entries : List (α × β)}
    (h : entries.Pairwise fun a b => compare a.1 b.1 = .lt) :
    (place key value entries).Pairwise fun a b => compare a.1 b.1 = .lt := by
  induction entries with
  | nil => simp [place]
  | cons first rest ih =>
    obtain ⟨hfirst, hrest⟩ := List.pairwise_cons.1 h
    simp only [place]
    split
    · next hlt =>
      refine List.pairwise_cons.2 ⟨fun entry hentry => ?_, h⟩
      rcases List.mem_cons.1 hentry with rfl | hmem
      · exact hlt
      · exact Std.TransCmp.lt_trans hlt (hfirst entry hmem)
    · next heq =>
      refine List.pairwise_cons.2 ⟨fun entry hentry => ?_, hrest⟩
      rw [Std.TransCmp.congr_left heq]
      exact hfirst entry hentry
    · next hgt =>
      refine List.pairwise_cons.2 ⟨fun entry hentry => ?_, ih hrest⟩
      rcases mem_place hentry with rfl | hmem
      · exact Std.OrientedCmp.lt_of_gt hgt
      · exact hfirst entry hmem

variable [Std.TransOrd α]

def insert (m : OrderedMap α β) (key : α) (value : β) : OrderedMap α β :=
  ⟨place key value m.toList, place_ascending key value m.ascending⟩

/-- The map with the value under `key` computed from the one kept there. -/
def update (m : OrderedMap α β) (key : α) (f : Option β → β) : OrderedMap α β :=
  m.insert key (f (m.get? key))

/-- The map of a list of entries, in which a later entry replaces an earlier one of the same key. -/
def ofList (entries : List (α × β)) : OrderedMap α β :=
  entries.foldl (fun m entry => m.insert entry.1 entry.2) empty

@[simp] theorem toList_insert (m : OrderedMap α β) (key : α) (value : β) :
    (m.insert key value).toList = place key value m.toList := rfl

end OrderedMap

end DatedCounts
