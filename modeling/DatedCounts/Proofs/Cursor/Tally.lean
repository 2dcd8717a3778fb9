import DatedCounts.Cursor.Group
import DatedCounts.Proofs.DateMap.Sum
import DatedCounts.Proofs.Fallible
import DatedCounts.Proofs.Key.Series

/-!
# Tallies

What a record adds to its group is a tally: its counts by date and its timestamp. Tallies are joined by
merging the counts and keeping the newest timestamp, which depends neither on order nor on grouping. A
group that has taken in some records keeps, under each visibility, the joined tallies of the records of
that visibility.
-/

namespace DatedCounts

theorem toNat_max (a b : UInt64) : (max a b).toNat = max a.toNat b.toNat := by
  simp only [max, UInt64.le_iff_toNat_le]
  split <;> rfl

abbrev Tally := DateMap × UInt64

namespace Tally

def zero : Tally := (∅, 0)

def join (a b : Tally) : Tally := (a.1.merge b.1, max a.2 b.2)

def sum (tallies : List Tally) : Tally := tallies.foldl join zero

/-- The sum of some tallies, of which there is none when there are no tallies. -/
def sum? (tallies : List Tally) : Option Tally := if tallies.isEmpty then none else some (sum tallies)

theorem join_comm (a b : Tally) : join a b = join b a := by
  refine Prod.ext (DateMap.merge_comm a.1 b.1) (UInt64.toNat_inj.1 ?_)
  simp only [join, toNat_max, Nat.max_comm]

theorem join_assoc (a b c : Tally) : join (join a b) c = join a (join b c) := by
  refine Prod.ext (DateMap.merge_assoc a.1 b.1 c.1) (UInt64.toNat_inj.1 ?_)
  simp only [join, toNat_max, Nat.max_assoc]

instance : Std.Commutative join := ⟨join_comm⟩

instance : Std.Associative join := ⟨join_assoc⟩

@[simp] theorem zero_join (a : Tally) : join zero a = a := by
  refine Prod.ext (DateMap.empty_merge a.1) (UInt64.toNat_inj.1 ?_)
  simp [join, zero, toNat_max]

@[simp] theorem join_zero (a : Tally) : join a zero = a := by rw [join_comm, zero_join]

@[simp] theorem sum_nil : sum [] = zero := rfl

theorem sum_cons (t : Tally) (tallies : List Tally) : sum (t :: tallies) = join t (sum tallies) := by
  rw [sum, List.foldl_cons, join_comm zero, List.foldl_assoc, ← sum]

theorem sum_append (xs ys : List Tally) : sum (xs ++ ys) = join (sum xs) (sum ys) := by
  induction xs with
  | nil => simp
  | cons x xs ih => rw [List.cons_append, sum_cons, ih, sum_cons, join_assoc]

theorem sum_perm {xs ys : List Tally} (h : xs.Perm ys) : sum xs = sum ys := by
  induction h with
  | nil => rfl
  | cons t _ ih => rw [sum_cons, sum_cons, ih]
  | swap t u _ => rw [sum_cons, sum_cons, sum_cons, sum_cons, ← join_assoc, join_comm u, join_assoc]
  | trans _ _ ihleft ihright => exact ihleft.trans ihright

@[simp] theorem sum?_nil : sum? [] = none := rfl

@[simp] theorem sum?_singleton (t : Tally) : sum? [t] = some t := by
  simp [sum?, sum_cons]

theorem sum_eq_getD (tallies : List Tally) : sum tallies = (sum? tallies).getD zero := by
  cases tallies <;> simp [sum?]

theorem sum?_eq_some_iff {tallies : List Tally} {t : Tally} :
    sum? tallies = some t ↔ tallies ≠ [] ∧ t = sum tallies := by
  cases tallies <;> simp [sum?, eq_comm]

theorem sum?_append (xs ys : List Tally) :
    sum? (xs ++ ys) = Option.merge join (sum? xs) (sum? ys) := by
  cases xs <;> cases ys <;> simp [sum?, ← sum_append]

theorem sum?_perm {xs ys : List Tally} (h : xs.Perm ys) : sum? xs = sum? ys := by
  simp only [sum?, List.isEmpty_iff_length_eq_zero, h.length_eq, sum_perm h]

/-- The counts of joined tallies are the sums of their counts. -/
theorem get?_sum (tallies : List Tally) (date : Text) :
    (sum tallies).1.get? date = Count.total? (tallies.filterMap (·.1.get? date)) := by
  induction tallies with
  | nil => rfl
  | cons t tallies ih =>
    rw [sum_cons, join, DateMap.get?_merge, ih]
    cases hcount : t.1.get? date with
    | none => simp [hcount]
    | some count =>
      simp only [List.filterMap_cons, hcount]
      rw [← List.singleton_append, Count.total?_append, Count.total?_singleton]

theorem le_newest_sum {tallies : List Tally} {t : Tally} (h : t ∈ tallies) :
    t.2 ≤ (sum tallies).2 := by
  induction tallies with
  | nil => cases h
  | cons first rest ih =>
    rw [sum_cons, join, UInt64.le_iff_toNat_le, toNat_max]
    rcases List.mem_cons.1 h with rfl | h
    · exact Nat.le_max_left _ _
    · exact Nat.le_trans (UInt64.le_iff_toNat_le.1 (ih h)) (Nat.le_max_right _ _)

theorem exists_newest_sum {tallies : List Tally} (h : tallies ≠ []) :
    ∃ t ∈ tallies, t.2 = (sum tallies).2 := by
  induction tallies with
  | nil => exact absurd rfl h
  | cons first rest ih =>
    cases rest with
    | nil => exact ⟨first, List.mem_cons_self, by simp [sum_cons]⟩
    | cons second rest =>
      obtain ⟨t, ht, hnewest⟩ := ih (List.cons_ne_nil _ _)
      rw [sum_cons, join]
      by_cases hle : first.2 ≤ (sum (second :: rest)).2
      · exact ⟨t, List.mem_cons_of_mem _ ht, by simp [max, hle, hnewest]⟩
      · exact ⟨first, List.mem_cons_self, by simp [max, hle]⟩

end Tally

/-! ### What records add -/

namespace Record

/-- Whether the value of a record is of the form that its qualifier calls for. -/
def Decodes (record : Record) : Prop :=
  match record.1.parts with
  | .raw _ date =>
    (∃ text, Text.ofBytes date = .ok text) ∧ ∃ count, Count.decode record.2 = .ok count
  | .aggregated _ => ∃ m, DateMap.decode record.2 = .ok m

theorem counts_raw_eq_ok {record : Record} {datatype bytes : Bytes} {m : DateMap}
    (hparts : record.1.parts = .raw datatype bytes) :
    record.counts = .ok m ↔ ∃ date count, Text.ofBytes bytes = .ok date ∧
      Count.decode record.2 = .ok count ∧ .single date count = m := by
  rw [counts, hparts]
  cases hdate : Text.ofBytes bytes with
  | error => simp [hdate]
  | ok date => simp [hdate, mapError_eq_ok, map_eq_ok]

theorem counts_aggregated_eq_ok {record : Record} {datatype : Bytes} {m : DateMap}
    (hparts : record.1.parts = .aggregated datatype) :
    record.counts = .ok m ↔ DateMap.decode record.2 = .ok m := by
  rw [counts, hparts]
  exact mapError_eq_ok

theorem decodes_iff {record : Record} : record.Decodes ↔ ∃ m, record.counts = .ok m := by
  rw [Decodes]
  cases hparts : record.1.parts with
  | aggregated => simp only [counts_aggregated_eq_ok hparts]
  | raw =>
    simp only [counts_raw_eq_ok hparts]
    constructor
    · rintro ⟨⟨date, hdate⟩, count, hcount⟩
      exact ⟨_, date, count, hdate, hcount, rfl⟩
    · rintro ⟨_, date, count, hdate, hcount, _⟩
      exact ⟨⟨date, hdate⟩, count, hcount⟩

/-- The counts of a record, of which there are none when it does not decode. -/
def held (record : Record) : DateMap :=
  match record.counts with
  | .ok m => m
  | .error _ => ∅

theorem held_of_counts {record : Record} {m : DateMap} (h : record.counts = .ok m) :
    record.held = m := by
  rw [held, h]

def tally (record : Record) : Tally := (record.held, record.1.timestamp)

end Record

namespace Group

def series (group : Group) : Series := ⟨group.row, group.family, group.datatype⟩

theorem holds_iff {group : Group} {key : Key} : group.holds key ↔ key.series = group.series := by
  simp [holds, series, Key.series, and_assoc]

/-- A group with the tallies of some records added. -/
def addAll (group : Group) (records : List Record) : Group :=
  records.foldl (fun group record => group.add record.1 record.held) group

/-- The group of those records that belong to a series. -/
def ofSeries (series : Series) (records : List Record) : Group :=
  addAll ⟨series.row, series.family, series.datatype, ∅⟩
    (records.filter fun record => record.1.series = series)

theorem addAll_append (group : Group) (xs ys : List Record) :
    group.addAll (xs ++ ys) = (group.addAll xs).addAll ys :=
  List.foldl_append ..

@[simp] theorem series_addAll (group : Group) (records : List Record) :
    (group.addAll records).series = group.series := by
  induction records generalizing group with
  | nil => rfl
  | cons record rest ih => exact ih (group.add record.1 record.held)

theorem get?_add (group : Group) (record : Record) (label : Bytes) :
    (group.add record.1 record.held).labels.get? label =
      Option.merge Tally.join (group.labels.get? label)
        (if record.1.visibility = label then some record.tally else none) := by
  change (group.labels.update record.1.visibility fun present =>
    Tally.join (present.getD Tally.zero) record.tally).get? label = _
  rw [OrderedMap.get?_update]
  by_cases h : label = record.1.visibility
  · rw [if_pos h, if_pos h.symm, h]
    cases group.labels.get? record.1.visibility <;> simp
  · rw [if_neg h, if_neg (Ne.symm h), Option.merge_none_right]

/-- Under each visibility a group keeps the joined tallies of the records of that visibility. -/
theorem get?_addAll (group : Group) (records : List Record) (label : Bytes) :
    (group.addAll records).labels.get? label =
      Option.merge Tally.join (group.labels.get? label)
        (Tally.sum? ((records.filter (·.1.visibility = label)).map Record.tally)) := by
  induction records generalizing group with
  | nil => simp [addAll]
  | cons record rest ih =>
    have hassoc : ∀ a b c : Option Tally, Option.merge Tally.join (Option.merge Tally.join a b) c =
        Option.merge Tally.join a (Option.merge Tally.join b c) := Std.Associative.assoc
    rw [← List.singleton_append, addAll_append, ih, List.singleton_append]
    change Option.merge _ ((group.add record.1 record.held).labels.get? label) _ = _
    rw [get?_add, hassoc]
    congr 1
    by_cases h : record.1.visibility = label
    · rw [if_pos h, List.filter_cons_of_pos (by simpa using h), List.map_cons,
        ← List.singleton_append, Tally.sum?_append]
      simp [Tally.sum?, Tally.sum_cons]
    · rw [if_neg h, List.filter_cons_of_neg (by simpa using h), Option.merge_none_left]

/-- The union of a group is the joined tally of all its records. -/
theorem union_addAll (group : Group) (records : List Record) :
    (group.addAll records).union = Tally.join group.union (Tally.sum (records.map Record.tally)) := by
  induction records generalizing group with
  | nil => simp [addAll]
  | cons record rest ih =>
    have hadd : (group.add record.1 record.held).union = Tally.join group.union record.tally :=
      OrderedMap.foldl_values_update Tally.join group.labels record.1.visibility Tally.zero
        record.tally Tally.zero_join
    rw [← List.singleton_append, addAll_append, ih, List.singleton_append, List.map_cons,
      Tally.sum_cons, ← Tally.join_assoc, ← hadd]
    rfl

end Group

end DatedCounts
