import DatedCounts.Proofs.DateMap.Sum

/-!
# Merging many date maps

Maps form a commutative monoid under merging, so a list of maps has one merged map, in whatever order and
grouping it is worked out. Counts stop at the greatest one wherever two are added, in a date of a merged
map as in the total over its dates. Each such sum is still the exact one cut off once at the end. Cutting
a window out of a merged map is the same as cutting it out of the parts.
-/

namespace DatedCounts

namespace Count

@[simp] theorem zero_plus (count : Count) : plus 0 count = count := by
  apply UInt64.toNat_inj.1
  have := toNat_le_greatest count
  simp only [toNat_plus, UInt64.toNat_zero]
  omega

/-- Cutting a running sum off at each step is cutting it off at the end. -/
theorem toNat_foldl_plus (counts : List Count) (start : Count) :
    (counts.foldl plus start).toNat = min greatest (start.toNat + (counts.map UInt64.toNat).sum) := by
  induction counts generalizing start with
  | nil => simp [Nat.min_eq_right (toNat_le_greatest start)]
  | cons count rest ih =>
    rw [List.foldl_cons, ih, toNat_plus, List.map_cons, List.sum_cons]
    omega

theorem toNat_sum (counts : List Count) :
    (sum counts).toNat = min greatest (counts.map UInt64.toNat).sum := by
  rw [sum, toNat_foldl_plus, UInt64.toNat_zero, Nat.zero_add]

end Count

namespace DateMap

/-! ### Many maps -/

def dates (m : DateMap) : List Text := m.entries.keys

def count (m : DateMap) (date : Text) : Nat := (m.get? date).elim 0 UInt64.toNat

def sum (m : DateMap) : Nat := (m.entries.values.map UInt64.toNat).sum

instance : Std.Commutative merge := ⟨merge_comm⟩

instance : Std.Associative merge := ⟨merge_assoc⟩

@[simp] theorem mergeAll_nil : mergeAll [] = ∅ := rfl

@[simp] theorem mergeAll_cons (m : DateMap) (maps : List DateMap) :
    mergeAll (m :: maps) = m.merge (mergeAll maps) := by
  rw [mergeAll, List.foldl_cons, merge_comm ∅, List.foldl_assoc, ← mergeAll]

theorem mergeAll_append (xs ys : List DateMap) :
    mergeAll (xs ++ ys) = (mergeAll xs).merge (mergeAll ys) := by
  induction xs with
  | nil => simp
  | cons x xs ih => rw [List.cons_append, mergeAll_cons, ih, mergeAll_cons, merge_assoc]

theorem mergeAll_perm {xs ys : List DateMap} (h : xs.Perm ys) : mergeAll xs = mergeAll ys := by
  induction h with
  | nil => rfl
  | cons m _ ih => rw [mergeAll_cons, mergeAll_cons, ih]
  | swap m n _ =>
    rw [mergeAll_cons, mergeAll_cons, mergeAll_cons, mergeAll_cons, ← merge_assoc, merge_comm n,
      merge_assoc]
  | trans _ _ ihleft ihright => exact ihleft.trans ihright

/-- A plan by which maps are merged: its leaves are the maps, and each inner node merges the result of its
second part into that of its first. -/
inductive Merging where
  | nothing
  | one (m : DateMap)
  | both (first second : Merging)

namespace Merging

def parts : Merging → List DateMap
  | nothing => []
  | one m => [m]
  | both first second => first.parts ++ second.parts

def result : Merging → DateMap
  | nothing => ∅
  | one m => m
  | both first second => first.result.merge second.result

/-- The grouping of a merge does not matter. -/
theorem result_eq (merging : Merging) : merging.result = mergeAll merging.parts := by
  induction merging with
  | nothing => rfl
  | one m => simp [result, parts]
  | both first second ihfirst ihsecond => rw [result, parts, mergeAll_append, ihfirst, ihsecond]

end Merging

/-! ### Dates and counts -/

theorem mem_dates_iff {m : DateMap} {date : Text} : date ∈ m.dates ↔ (m.get? date).isSome :=
  OrderedMap.mem_keys_iff

theorem mem_dates_mergeAll {maps : List DateMap} {date : Text} :
    date ∈ (mergeAll maps).dates ↔ ∃ m ∈ maps, date ∈ m.dates := by
  induction maps with
  | nil => simp [mem_dates_iff]
  | cons m maps ih =>
    rw [mergeAll_cons, List.exists_mem_cons_iff, ← ih]
    exact mem_keys_merge

theorem count_merge (m n : DateMap) (date : Text) :
    (m.merge n).count date = min Count.greatest (m.count date + n.count date) := by
  rw [count, count, count, get?_merge]
  cases m.get? date with
  | none =>
    cases n.get? date with
    | none => simp
    | some other => simp [Nat.min_eq_right (Count.toNat_le_greatest other)]
  | some count =>
    cases n.get? date with
    | none => simp [Nat.min_eq_right (Count.toNat_le_greatest count)]
    | some other => simp [Count.toNat_plus]

theorem count_mergeAll (maps : List DateMap) (date : Text) :
    (mergeAll maps).count date = min Count.greatest (maps.map (·.count date)).sum := by
  induction maps with
  | nil => simp [count]
  | cons m maps ih =>
    rw [mergeAll_cons, count_merge, ih, List.map_cons, List.sum_cons]
    omega

theorem get?_mergeAll (maps : List DateMap) (date : Text) :
    (mergeAll maps).get? date = if date ∈ (mergeAll maps).dates then
      some (.ofNat (min Count.greatest (maps.map (·.count date)).sum)) else none := by
  rw [← count_mergeAll, count]
  simp only [mem_dates_iff]
  cases (mergeAll maps).get? date <;> simp

/-! ### Totals -/

theorem total_add (m : DateMap) (date : Text) (count : Count) :
    (m.add date count).total = m.total.plus count := by
  -- A date that the map lacks is added to as if its count were zero.
  have hadd : m.add date count =
      ⟨m.entries.update date fun present => (present.getD 0).plus count⟩ := by
    rw [add]
    congr 2
    funext present
    cases present <;> simp
  rw [hadd]
  exact OrderedMap.foldl_values_update Count.plus m.entries date 0 count Count.zero_plus

theorem total_foldl_add (entries : List (Text × Count)) (m : DateMap) :
    (entries.foldl (fun m entry => m.add entry.1 entry.2) m).total =
      (entries.map (·.2)).foldl Count.plus m.total := by
  induction entries generalizing m with
  | nil => rfl
  | cons first rest ih => rw [List.foldl_cons, ih, total_add, List.map_cons, List.foldl_cons]

theorem toNat_total (m : DateMap) : m.total.toNat = min Count.greatest m.sum :=
  Count.toNat_sum _

theorem toNat_total_merge (m n : DateMap) :
    (m.merge n).total.toNat = min Count.greatest (m.sum + n.sum) := by
  have hvalues : n.toList.map (·.2) = n.entries.values := rfl
  rw [merge, total_foldl_add, hvalues, Count.toNat_foldl_plus, toNat_total, sum, sum]
  omega

theorem toNat_total_mergeAll (maps : List DateMap) :
    (mergeAll maps).total.toNat = min Count.greatest (maps.map sum).sum := by
  induction maps with
  | nil => rfl
  | cons m maps ih =>
    rw [toNat_total] at ih
    rw [mergeAll_cons, toNat_total_merge, List.map_cons, List.sum_cons]
    omega

/-! ### Windows -/

theorem get?_between (m : DateMap) (first last date : Text) : (m.between first last).get? date =
    if (compare first date).isLE && (compare date last).isLE then m.get? date else none :=
  OrderedMap.get?_filterKeys m.entries _ date

theorem between_of_gt (m : DateMap) {first last : Text} (h : compare first last = .gt) :
    m.between first last = ∅ := by
  apply ext_get?
  intro date
  rw [get?_between, get?_empty, ite_eq_right_iff]
  intro hwithin
  obtain ⟨hfirst, hlast⟩ := Bool.and_eq_true_iff.1 hwithin
  have hle := Std.TransCmp.isLE_trans hfirst hlast
  rw [h] at hle
  cases hle

theorem between_merge (m n : DateMap) (first last : Text) :
    (m.merge n).between first last = (m.between first last).merge (n.between first last) := by
  apply ext_get?
  intro date
  rw [get?_between, get?_merge, get?_merge, get?_between, get?_between]
  split <;> rfl

theorem between_mergeAll (maps : List DateMap) (first last : Text) :
    (mergeAll maps).between first last = mergeAll (maps.map (·.between first last)) := by
  induction maps with
  | nil => rfl
  | cons m maps ih => rw [mergeAll_cons, between_merge, ih, List.map_cons, mergeAll_cons]

/-- Some maps have one merged map, whatever the order and the grouping of the merges. It has all their
dates, with the exact sum of each date's counts up to the greatest count, and its total is the exact sum
of all their counts up to the greatest one. A window of it is the windows of the maps merged, of which
none has any dates when it ends before it starts. -/
theorem mergings_agree (maps : List DateMap) :
    (∀ merging : Merging, merging.parts.Perm maps → merging.result = mergeAll maps) ∧
    (∀ others : List DateMap, others.Perm maps → mergeAll others = mergeAll maps) ∧
    (∀ date, date ∈ (mergeAll maps).dates ↔ ∃ m ∈ maps, date ∈ m.dates) ∧
    (∀ date, (mergeAll maps).get? date = if date ∈ (mergeAll maps).dates then
      some (.ofNat (min (2 ^ 64 - 1) (maps.map (·.count date)).sum)) else none) ∧
    (mergeAll maps).total.toNat = min (2 ^ 64 - 1) (maps.map sum).sum ∧
    ∀ first last, (mergeAll maps).between first last = mergeAll (maps.map (·.between first last)) ∧
      (compare first last = .gt →
        (mergeAll maps).between first last = ∅ ∧ ∀ m ∈ maps, m.between first last = ∅) :=
  ⟨fun merging hperm => merging.result_eq.trans (mergeAll_perm hperm), fun _ => mergeAll_perm,
    fun _ => mem_dates_mergeAll, get?_mergeAll maps, toNat_total_mergeAll maps,
    fun first last => ⟨between_mergeAll maps first last,
      fun hgt => ⟨between_of_gt _ hgt, fun m _ => between_of_gt m hgt⟩⟩⟩

/-- Three maps that are full in one date, and at the merging of two of them in another. -/
def brimming : List DateMap :=
  [.ofList [(.ofString "20240101", 18446744073709551615), (.ofString "20240102", 1)],
    .ofList [(.ofString "20240101", 7), (.ofString "20240103", 18446744073709551613)],
    .ofList [(.ofString "20240103", 3)]]

theorem mergings_agree_brimming :
    let grouped : Merging :=
      .both (.both (.one brimming[2]) .nothing) (.both (.one brimming[1]) (.one brimming[0]))
    grouped.parts.Perm brimming ∧ grouped.result = mergeAll brimming ∧
      brimming.reverse.Perm brimming ∧ mergeAll brimming.reverse = mergeAll brimming ∧
      compare (Text.ofString "20240102") (.ofString "20240101") = .gt ∧
      (mergeAll brimming).between (.ofString "20240102") (.ofString "20240101") = ∅ := by
  intro grouped
  obtain ⟨hgroupings, hperms, _, _, _, hwindows⟩ := mergings_agree brimming
  have hgrouped : grouped.parts.Perm brimming := brimming.reverse_perm
  have hgt : compare (Text.ofString "20240102") (.ofString "20240101") = .gt := by decide
  exact ⟨hgrouped, hgroupings grouped hgrouped, brimming.reverse_perm,
    hperms brimming.reverse brimming.reverse_perm, hgt, ((hwindows _ _).2 hgt).1⟩

/-- Cutting off at each step would show here if it did not come to the same. -/
example : (mergeAll brimming).count (.ofString "20240103") = 18446744073709551615 ∧
    (mergeAll brimming).total = 18446744073709551615 := by
  decide

end DateMap

end DatedCounts
