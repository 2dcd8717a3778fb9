import DatedCounts.Cursor.Store
import DatedCounts.Proofs.Cursor.Reading
import DatedCounts.Proofs.Ordered.Ascending

/-!
# What a store reads

A store that is positioned on a range and a choice of families reads just the records of its data that
lie in the range and belong to the chosen families, in the order of their keys, whatever it was doing
before.
-/

namespace DatedCounts

namespace Range

theorem beforeEnd_of_isLE {range : Range} {a b : Key} (h : (compare a b).isLE)
    (hb : range.beforeEnd b) : range.beforeEnd a := by
  obtain ⟨start, stop⟩ := range
  cases stop with
  | unbounded => rfl
  | included last => exact Std.TransCmp.isLE_trans h hb
  | excluded last =>
    have hlt := Std.TransCmp.lt_of_isLE_of_lt h (Ordering.isLT_iff_eq_lt.1 hb)
    exact Ordering.isLT_iff_eq_lt.2 hlt

theorem afterStart_of_isLE {range : Range} {a b : Key} (h : (compare a b).isLE)
    (ha : range.afterStart a) : range.afterStart b := by
  obtain ⟨start, stop⟩ := range
  cases start with
  | unbounded => rfl
  | included first =>
    exact Std.OrientedCmp.isGE_of_isLE
      (Std.TransCmp.isLE_trans (Std.OrientedCmp.isLE_of_isGE ha) h)
  | excluded first =>
    have hlt := Std.OrientedCmp.lt_of_gt (Ordering.isGT_iff_eq_gt.1 ha)
    exact Ordering.isGT_iff_eq_gt.2
      (Std.OrientedCmp.gt_of_lt (Std.TransCmp.lt_of_lt_of_isLE hlt h))

end Range

namespace Store

/-- The records of some data that lie in a range and belong to the chosen families. -/
def within (data : OrderedMap Key Bytes) (range : Range) (projection : Projection) : List Record :=
  data.toList.filter fun record => range.contains record.1 && projection.allows record.1.family

theorem mem_within {data : OrderedMap Key Bytes} {range : Range} {projection : Projection}
    {record : Record} : record ∈ within data range projection ↔
      record ∈ data.toList ∧ range.contains record.1 ∧ projection.allows record.1.family := by
  simp [within]

theorem within_ascending (data : OrderedMap Key Bytes) (range : Range) (projection : Projection) :
    Ascending (within data range projection) :=
  data.ascending.filter _

theorem length_within_le (data : OrderedMap Key Bytes) (range : Range) (projection : Projection) :
    (within data range projection).length ≤ data.size :=
  List.length_filter_le _ _

theorem within_all (data : OrderedMap Key Bytes) : within data .all .everything = data.toList := by
  rw [within, List.filter_eq_self]
  exact fun _ _ => rfl

/-- What lies in a range from a key on is what lies in the range that starts at the key. -/
theorem within_resumeAt (data : OrderedMap Key Bytes) (projection : Projection) {range : Range}
    {key : Key} (h : range.afterStart key) : within data (range.resumeAt key) projection =
      (within data range projection).filter fun record => (compare record.1 key).isGE := by
  rw [within, within, List.filter_filter]
  refine List.filter_congr fun record _ => ?_
  have hstart : (compare record.1 key).isGE → range.afterStart record.1 := fun hge =>
    Range.afterStart_of_isLE (Std.OrientedCmp.isLE_of_isGE hge) h
  simp only [Range.contains, Range.resumeAt, Range.afterStart, Range.beforeEnd] at hstart ⊢
  grind

/-! ### Moving over the records -/

private def chosen (range : Range) (projection : Projection) (records : List Record) : List Record :=
  (records.takeWhile fun record => range.beforeEnd record.1).filter
    fun record => projection.allows record.1.family

private theorem chosen_settle (range : Range) (projection : Projection) (records : List Record) :
    match (settle range projection records).1 with
    | [] => chosen range projection records = []
    | top :: rest => chosen range projection records = top :: chosen range projection rest := by
  induction records with
  | nil => rfl
  | cons record rest ih =>
    rw [settle]
    by_cases hend : range.beforeEnd record.1
    · by_cases hallowed : projection.allows record.1.family
      · simp [hend, hallowed, chosen]
      · simpa [hend, hallowed, chosen] using ih
    · simp [hend, chosen]

theorem advance_of_cons {s : Store} {top : Record} {rest : List Record} (h : s.ahead = top :: rest) :
    Cursor.advance s = .done (s.moveTo rest) := by
  change advance s = _
  rw [advance, h]

private theorem reads_chosen {s : Store} {records : List Record}
    (hahead : s.ahead = (settle s.range s.projection records).1) :
    Cursor.Reads s (chosen s.range s.projection records) none := by
  generalize hread : chosen s.range s.projection records = read
  induction read generalizing s records with
  | nil =>
    have hsettle := chosen_settle s.range s.projection records
    rw [← hahead, hread] at hsettle
    cases htop : s.ahead with
    | nil => exact .ended (congrArg List.head? htop)
    | cons top rest => simp [htop] at hsettle
  | cons record read ih =>
    have hsettle := chosen_settle s.range s.projection records
    rw [← hahead, hread] at hsettle
    cases htop : s.ahead with
    | nil => simp [htop] at hsettle
    | cons top rest =>
      rw [htop] at hsettle
      obtain ⟨rfl, hrest⟩ := List.cons.inj hsettle
      exact .next (congrArg List.head? htop) (advance_of_cons htop)
        (ih (s := s.moveTo rest) rfl hrest.symm)

theorem dropWhile_afterStart (data : OrderedMap Key Bytes) (range : Range) :
    (data.toList.dropWhile fun record => !range.afterStart record.1) =
      data.toList.filter fun record => range.afterStart record.1 :=
  dropWhile_eq_filter <| data.ascending.imp fun hlt =>
    Range.afterStart_of_isLE (Ordering.isLE_of_eq_lt hlt)

private theorem chosen_dropWhile (data : OrderedMap Key Bytes) (range : Range)
    (projection : Projection) :
    chosen range projection (data.toList.dropWhile fun record => !range.afterStart record.1) =
      within data range projection := by
  have hend : data.toList.Pairwise fun a b => range.beforeEnd b.1 → range.beforeEnd a.1 :=
    data.ascending.imp fun hlt => Range.beforeEnd_of_isLE (Ordering.isLE_of_eq_lt hlt)
  rw [chosen, dropWhile_afterStart, takeWhile_eq_filter (hend.filter _), List.filter_filter,
    List.filter_filter, within]
  congr 1
  funext record
  rw [Range.contains]
  grind

/-- A store reads the records in the range and the families that it is positioned on. -/
theorem opens_seek (s : Store) (range : Range) (projection : Projection) :
    Cursor.Opens (Cursor.seek range projection s) (within s.data range projection) none := by
  rw [← chosen_dropWhile]
  exact reads_chosen (s := s.seek range projection) rfl

theorem reads_fork {s : Store} {records : List Record} (h : Cursor.Reads s records none) :
    Cursor.Reads (Cursor.fork s) records none := by
  -- A store that differs in what it has counted goes through the same places.
  suffices hcopy : ∀ s' : Store, s'.range = s.range → s'.projection = s.projection →
      s'.ahead = s.ahead → Cursor.Reads s' records none from hcopy _ rfl rfl rfl
  generalize hfault : none = fault at h
  induction h with
  | ended htop =>
    intro s' _ _ hahead
    exact .ended ((congrArg List.head? hahead).trans htop)
  | failed => cases hfault
  | @next s next record rest fault htop hmove _ ih =>
    intro s' hrange hprojection hahead
    obtain ⟨left, hs⟩ := List.head?_eq_some_iff.1 htop
    rw [advance_of_cons hs] at hmove
    cases hmove
    refine .next ((congrArg List.head? hahead).trans htop) (advance_of_cons (hahead.trans hs))
      (ih hfault _ hrange hprojection ?_)
    simp only [moveTo, hrange, hprojection]

theorem kept (data : OrderedMap Key Bytes) : Cursor.Kept fun s : Store => s.data = data where
  seek _ _ h := h
  advance {s} h := by
    change (advance s).state.data = data
    rw [advance]
    cases s.ahead <;> exact h
  fork h := h

instance : Cursor.Sized Store where
  kept n := {
    seek := fun {s} range projection h => by
      rw [← h]
      exact congrArg OrderedMap.size ((kept s.data).seek range projection rfl)
    advance := fun {s} h => by
      rw [← h]
      exact congrArg OrderedMap.size ((kept s.data).advance rfl)
    fork := fun h => h }

end Store

end DatedCounts
