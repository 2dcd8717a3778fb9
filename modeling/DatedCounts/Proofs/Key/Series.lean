import Mathlib
import DatedCounts.Key.Qualifier

/-!
# Series of keys

The records that are summed up together form a series: they share their row, their family and their
datatype. A datatype ends at the first NUL, the least byte, so keys in order are in the order of their
series, and the records of one series stand next to one another whatever their qualifiers hold.
-/

namespace DatedCounts

/-! ### Qualifiers -/

namespace Qualifier

theorem datatype_ofBytes_cons (byte : UInt8) (rest : Bytes) :
    (ofBytes (byte :: rest)).datatype =
      if byte = separator then [] else byte :: (ofBytes rest).datatype := by
  simp only [ofBytes, cutAt?]
  by_cases hbyte : byte = separator
  · simp [hbyte, datatype]
  · cases cutAt? separator rest <;> simp [hbyte, datatype]

theorem separator_notMem_datatype (bytes : Bytes) : separator ∉ (ofBytes bytes).datatype := by
  simp only [ofBytes]
  split
  · next h => exact (eq_append_of_cutAt? h).2
  · next h => exact cutAt?_eq_none.1 h

theorem ofBytes_datatype (bytes : Bytes) :
    ofBytes (ofBytes bytes).datatype = .aggregated (ofBytes bytes).datatype :=
  ofBytes_aggregated (separator_notMem_datatype bytes)

theorem separator_isLE (byte : UInt8) : (compare separator byte).isLE := by
  rw [Std.isLE_compare]
  exact UInt8.zero_le

theorem datatype_isLE {a b : Bytes} (h : (compare a b).isLE) :
    (compare (ofBytes a).datatype (ofBytes b).datatype).isLE := by
  induction a generalizing b with
  | nil => exact List.isLE_compare_nil_left
  | cons x a ih =>
    cases b with
    | nil =>
      rw [List.compare_cons_nil] at h
      cases h
    | cons y b =>
      rw [List.compare_cons_cons] at h
      rw [datatype_ofBytes_cons, datatype_ofBytes_cons]
      cases hxy : compare x y with
      | gt => simp [hxy] at h
      | eq =>
        obtain rfl := Std.compare_eq_iff_eq.1 hxy
        have hrest : (compare a b).isLE := by simpa [hxy] using h
        split
        · exact Std.ReflCmp.isLE_rfl
        · rw [List.compare_cons_cons, hxy]
          exact ih hrest
      | lt =>
        have hy : y ≠ separator := by
          rintro rfl
          exact Std.OrientedCmp.not_lt_of_isLE (separator_isLE x) hxy
        rw [if_neg hy]
        split
        · exact List.isLE_compare_nil_left
        · rw [List.compare_cons_cons, hxy]
          rfl

theorem compare_separator {byte : UInt8} (h : byte ≠ separator) :
    compare separator byte = .lt := by
  rcases Ordering.isLE_iff_eq_lt_or_eq_eq.1 (separator_isLE byte) with hlt | heq
  · exact hlt
  · exact absurd (Std.compare_eq_iff_eq.1 heq).symm h

theorem compare_raw {a b : Bytes} (ha : separator ∉ a) (hb : separator ∉ b) (x y : Bytes) :
    compare (raw a x).toBytes (raw b y).toBytes = (compare a b).then (compare x y) := by
  simp only [toBytes]
  induction a generalizing b with
  | nil =>
    cases b with
    | nil => simp [List.compare_cons_cons]
    | cons byte b =>
      have hbyte : byte ≠ separator := fun h => hb (h ▸ List.mem_cons_self)
      simp [List.compare_cons_cons, List.compare_nil_cons, compare_separator hbyte]
  | cons first a ih =>
    have hfirst : first ≠ separator := fun h => ha (h ▸ List.mem_cons_self)
    cases b with
    | nil =>
      have hgt : compare first separator = .gt :=
        Std.OrientedCmp.gt_of_lt (compare_separator hfirst)
      simp [List.compare_cons_cons, List.compare_cons_nil, hgt]
    | cons byte b =>
      have hrest := ih (fun h => ha (List.mem_cons_of_mem _ h))
        (fun h => hb (List.mem_cons_of_mem byte h))
      rw [List.cons_append, List.cons_append, List.compare_cons_cons, List.compare_cons_cons, hrest,
        Ordering.then_assoc]

end Qualifier

/-! ### Series -/

/-- What records that are summed up together share. -/
@[ext] structure Series where
  row : Bytes
  family : Bytes
  datatype : Bytes
  deriving DecidableEq

namespace Series

def order : Series → Series → Ordering :=
  compareLex (compareOn row) <| compareLex (compareOn family) (compareOn datatype)

instance : Ord Series := ⟨order⟩

instance : Std.TransOrd Series := by
  change Std.TransCmp order
  unfold order
  infer_instance

instance : Std.LawfulEqOrd Series where
  eq_of_compare {a b} h := by
    change order a b = .eq at h
    simp only [order, compareLex_eq_eq, compareOn] at h
    obtain ⟨hrow, hfamily, hdatatype⟩ := h
    exact Series.ext (Std.LawfulEqCmp.eq_of_compare hrow) (Std.LawfulEqCmp.eq_of_compare hfamily)
      (Std.LawfulEqCmp.eq_of_compare hdatatype)

theorem compare_eq (a b : Series) :
    compare a b = (compare a.row b.row).then ((compare a.family b.family).then
      (compare a.datatype b.datatype)) :=
  rfl

/-- The key of the sums of a series under one visibility. -/
def key (series : Series) (visibility : Bytes) (timestamp : UInt64) : Key :=
  ⟨series.row, series.family, series.datatype, visibility, timestamp⟩

end Series

namespace Key

def series (key : Key) : Series := ⟨key.row, key.family, key.parts.datatype⟩

theorem series_key (key : Key) (visibility : Bytes) (timestamp : UInt64) :
    (key.series.key visibility timestamp).series = key.series := by
  simp only [series, Series.key, parts, Qualifier.ofBytes_datatype]
  rfl

theorem compare_eq (a b : Key) :
    compare a b = (compare a.row b.row).then ((compare a.family b.family).then
      ((compare a.qualifier b.qualifier).then ((compare a.visibility b.visibility).then
        (compare b.timestamp a.timestamp)))) :=
  rfl

theorem series_isLE {a b : Key} (h : (compare a b).isLE) : (compare a.series b.series).isLE := by
  rw [compare_eq, Ordering.isLE_then_iff_or, Ordering.isLE_then_iff_or] at h
  rw [Series.compare_eq, Ordering.isLE_then_iff_or, Ordering.isLE_then_iff_or]
  refine h.imp_right (And.imp_right (Or.imp_right (And.imp_right fun hqualifier => ?_)))
  exact Qualifier.datatype_isLE (Ordering.isLE_left_of_isLE_then hqualifier)

theorem series_lt_of_isLE {a b : Key} (h : (compare a b).isLE) (hne : a.series ≠ b.series) :
    compare a.series b.series = .lt := by
  rcases Ordering.isLE_iff_eq_lt_or_eq_eq.1 (series_isLE h) with hlt | heq
  · exact hlt
  · exact absurd (Std.compare_eq_iff_eq.1 heq) hne

theorem lt_of_series_lt {a b : Key} (h : compare a.series b.series = .lt) : compare a b = .lt := by
  apply Std.OrientedCmp.lt_of_not_isLE
  intro hle
  exact Std.OrientedCmp.not_lt_of_isLE (series_isLE hle) h

/-- A key between two keys of a series is a key of that series. -/
theorem series_eq_of_between {a b c : Key} (hab : (compare a b).isLE) (hbc : (compare b c).isLE)
    (hac : a.series = c.series) : b.series = a.series := by
  have hle := series_isLE hbc
  rw [← hac] at hle
  exact Std.compare_eq_iff_eq.1 (Std.OrientedCmp.isLE_antisymm hle (series_isLE hab))

end Key

end DatedCounts
