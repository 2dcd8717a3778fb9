import DatedCounts.DateMap
import DatedCounts.Proofs.Ordered.Lookup

/-!
# Sums of date maps

Date by date, merging maps adds up counts: a merged map has the dates of all its parts, and the count of
a date is the sum of all counts of that date, or the greatest count when the sum is above it. So the
order and the grouping of merges do not matter.
-/

namespace DatedCounts

namespace Count

/-- The sum of some counts, or the greatest count when the sum is above it. No counts have no sum. -/
def total? (counts : List Count) : Option Count :=
  if counts.isEmpty then none
  else some (.ofNat (min greatest (counts.map UInt64.toNat).sum))

theorem toNat_ofNat_min (n : Nat) : (UInt64.ofNat (min greatest n)).toNat = min greatest n := by
  rw [UInt64.toNat_ofNat', Nat.mod_eq_of_lt]
  simp only [greatest, UInt64.size]
  omega

theorem toNat_le_greatest (count : Count) : count.toNat ≤ greatest := by
  have := count.toNat_lt
  simp only [greatest, UInt64.size]
  omega

instance : Std.Commutative plus where
  comm m n := by rw [plus, plus, Nat.add_comm]

instance : Std.Associative plus where
  assoc a b c := by
    apply UInt64.toNat_inj.1
    simp only [toNat_plus]
    omega

@[simp] theorem total?_nil : total? [] = none := rfl

@[simp] theorem total?_singleton (count : Count) : total? [count] = some count := by
  simp [total?, Nat.min_eq_right (toNat_le_greatest count)]

theorem isSome_total? {counts : List Count} : (total? counts).isSome ↔ counts ≠ [] := by
  cases counts <;> simp [total?]

theorem total?_append (xs ys : List Count) :
    total? (xs ++ ys) = Option.merge plus (total? xs) (total? ys) := by
  cases xs with
  | nil => simp
  | cons x xs =>
    cases ys with
    | nil => simp
    | cons y ys =>
      simp only [total?, List.cons_append, List.isEmpty_cons, Bool.false_eq_true, ↓reduceIte,
        Option.merge_some_some, Option.some.injEq]
      apply UInt64.toNat_inj.1
      simp only [toNat_plus, toNat_ofNat_min, List.map_cons, List.map_append, List.sum_cons,
        List.sum_append]
      omega

end Count

namespace DateMap

/-- A map is fixed by the counts of the dates. -/
theorem ext_get? {m n : DateMap} (h : ∀ date, m.get? date = n.get? date) : m = n :=
  DateMap.ext (OrderedMap.ext_get? h)

@[simp] theorem get?_empty (date : Text) : (∅ : DateMap).get? date = none := rfl

theorem get?_single (date other : Text) (count : Count) :
    (single date count).get? other = if other = date then some count else none :=
  OrderedMap.get?_insert _ _ _ _

theorem get?_add (m : DateMap) (date other : Text) (count : Count) :
    (m.add date count).get? other =
      Option.merge Count.plus (m.get? other) (if other = date then some count else none) := by
  simp only [add, get?, OrderedMap.get?_update]
  split
  · next h =>
    subst h
    cases m.entries.get? other <;> rfl
  · simp

theorem get?_foldl_add (entries : List (Text × Count)) (m : DateMap) (date : Text) :
    (entries.foldl (fun m entry => m.add entry.1 entry.2) m).get? date =
      Option.merge Count.plus (m.get? date) (Count.total?
        (entries.filterMap fun entry => if date = entry.1 then some entry.2 else none)) := by
  induction entries generalizing m with
  | nil => simp
  | cons first rest ih =>
    have hassoc : ∀ a b c : Option Count, Option.merge Count.plus (Option.merge Count.plus a b) c =
        Option.merge Count.plus a (Option.merge Count.plus b c) := Std.Associative.assoc
    rw [List.foldl_cons, ih, get?_add, hassoc]
    congr 1
    by_cases hdate : date = first.1
    · simp only [List.filterMap_cons, if_pos hdate]
      rw [← List.singleton_append, Count.total?_append, Count.total?_singleton]
    · simp only [List.filterMap_cons, if_neg hdate, Option.merge_none_left]

theorem filterMap_toList (m : DateMap) (date : Text) :
    (m.toList.filterMap fun entry => if date = entry.1 then some entry.2 else none) =
      (m.get? date).toList :=
  OrderedMap.filterMap_toList m.entries date

/-- Merging adds up the counts of each date. -/
theorem get?_merge (m other : DateMap) (date : Text) :
    (m.merge other).get? date = Option.merge Count.plus (m.get? date) (other.get? date) := by
  rw [merge, get?_foldl_add, filterMap_toList]
  cases other.get? date <;> simp

theorem mem_keys_merge {m other : DateMap} {date : Text} :
    date ∈ (m.merge other).entries.keys ↔ date ∈ m.entries.keys ∨ date ∈ other.entries.keys := by
  have hmerge := get?_merge m other date
  simp only [get?] at hmerge
  rw [OrderedMap.mem_keys_iff, OrderedMap.mem_keys_iff, OrderedMap.mem_keys_iff, hmerge]
  cases m.entries.get? date <;> cases other.entries.get? date <;> simp

theorem merge_comm (m n : DateMap) : m.merge n = n.merge m := by
  apply ext_get?
  intro date
  rw [get?_merge, get?_merge]
  exact Std.Commutative.comm _ _

theorem merge_assoc (a b c : DateMap) : (a.merge b).merge c = a.merge (b.merge c) := by
  apply ext_get?
  intro date
  simp only [get?_merge]
  exact Std.Associative.assoc _ _ _

@[simp] theorem merge_empty (m : DateMap) : m.merge ∅ = m := rfl

@[simp] theorem empty_merge (m : DateMap) : (∅ : DateMap).merge m = m :=
  ext_get? fun date => by simp [get?_merge]

/-- The counts of some maps added up. -/
def mergeAll (maps : List DateMap) : DateMap := maps.foldl merge ∅

end DateMap

end DatedCounts
