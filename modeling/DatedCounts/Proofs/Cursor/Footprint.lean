import DatedCounts.Proofs.Cursor.Tally
import DatedCounts.Proofs.Encoding.Value

/-!
# Sums that fit into memory

The counts that a record holds are no larger than the record, and joined counts are no larger than the
counts that were joined. So the sums of records that fit into memory can be written, and a record that
they are written into holds what was summed up.
-/

namespace DatedCounts

namespace DateMap

theorem atMost_empty (bound : Nat) : (∅ : DateMap).AtMost bound :=
  ⟨Nat.zero_le _, fun _ hentry => absurd hentry List.not_mem_nil⟩

theorem AtMost.merge {m other : DateMap} {bound bound' : Nat} (hm : m.AtMost bound)
    (hother : other.AtMost bound') : (m.merge other).AtMost (bound + bound') := by
  constructor
  · have hnodup : (m.merge other).entries.keys.Nodup :=
      Ascending.nodup_keys (m.merge other).entries.ascending
    have hsubset : (m.merge other).entries.keys ⊆ m.entries.keys ++ other.entries.keys :=
      fun date hdate => List.mem_append.2 (mem_keys_merge.1 hdate)
    have hlength := hnodup.length_le_of_subset hsubset
    rw [List.length_append, OrderedMap.keys, OrderedMap.keys, OrderedMap.keys, List.length_map,
      List.length_map, List.length_map] at hlength
    exact Nat.le_trans hlength (Nat.add_le_add hm.size hother.size)
  · intro entry hentry
    have hdate := mem_keys_merge.1 (OrderedMap.mem_keys.2 ⟨entry.2, hentry⟩)
    simp only [OrderedMap.mem_keys] at hdate
    rcases hdate with ⟨count, hcount⟩ | ⟨count, hcount⟩
    · exact Nat.le_trans (hm.dates (entry.1, count) hcount) (Nat.le_add_right _ _)
    · exact Nat.le_trans (hother.dates (entry.1, count) hcount) (Nat.le_add_left _ _)

end DateMap

namespace Record

/-- The bytes of the parts of a record that have no fixed length. -/
def footprint (record : Record) : Nat :=
  record.1.row.length + record.1.family.length + record.1.qualifier.length +
    record.1.visibility.length + record.2.length

private theorem length_date_lt {bytes datatype date : Bytes}
    (h : Qualifier.ofBytes bytes = .raw datatype date) : date.length < bytes.length := by
  rw [← Qualifier.toBytes_ofBytes bytes, h, Qualifier.toBytes, List.length_append, List.length_cons]
  omega

theorem atMost_held_of_counts {record : Record} {bound : Nat}
    (h : ∀ m, record.counts = .ok m → m.AtMost bound) : record.held.AtMost bound := by
  rw [held]
  cases hcounts : record.counts with
  | error => exact DateMap.atMost_empty _
  | ok m => exact h m hcounts

theorem atMost_held_raw {record : Record} {datatype date : Bytes}
    (hparts : record.1.parts = .raw datatype date) : record.held.AtMost (date.length + 1) := by
  refine atMost_held_of_counts fun m hm => ?_
  obtain ⟨text, count, htext, _, rfl⟩ := (counts_raw_eq_ok hparts).1 hm
  refine ⟨Nat.le_add_left _ _, fun entry hentry => ?_⟩
  obtain rfl := List.mem_singleton.1 hentry
  rw [Text.bytes_of_ofBytes htext]
  exact Nat.le_succ _

/-- The counts that a record holds are no larger than the record. -/
theorem atMost_held (record : Record) : record.held.AtMost record.footprint := by
  cases hparts : record.1.parts with
  | raw datatype date =>
    have hlength := length_date_lt hparts
    refine (atMost_held_raw hparts).mono ?_
    rw [footprint]
    omega
  | aggregated =>
    refine atMost_held_of_counts fun m hm => ?_
    exact (DateMap.atMost_of_decode ((counts_aggregated_eq_ok hparts).1 hm)).mono (Nat.le_add_left _ _)

/-- The joined counts of some records are no larger than the records together, by any bounds on what each
of them holds. -/
theorem atMost_sum {bound : Record → Nat} {records : List Record}
    (h : ∀ record ∈ records, record.held.AtMost (bound record)) :
    (Tally.sum (records.map tally)).1.AtMost (records.map bound).sum := by
  induction records with
  | nil => exact DateMap.atMost_empty _
  | cons record rest ih =>
    obtain ⟨hrecord, hrest⟩ := List.forall_mem_cons.1 h
    rw [List.map_cons, List.map_cons, Tally.sum_cons, List.sum_cons]
    exact hrecord.merge (ih hrest)

theorem footprint_filter_le (p : Record → Bool) (records : List Record) :
    ((records.filter p).map footprint).sum ≤ (records.map footprint).sum := by
  induction records with
  | nil => exact Nat.le_refl _
  | cons record rest ih =>
    rw [List.filter_cons]
    split
    · simpa using ih
    · simpa using Nat.le_trans ih (Nat.le_add_left _ _)

theorem fits_sum {records : List Record} (h : (records.map footprint).sum < 2 ^ 64)
    (p : Record → Bool) : (Tally.sum ((records.filter p).map tally)).1.Fits :=
  (atMost_sum fun record _ => record.atMost_held).fits (Nat.lt_of_le_of_lt (footprint_filter_le p records) h)

theorem counts_sums (key : Key) (visibility : Bytes) (timestamp : UInt64) {m : DateMap}
    (h : m.Fits) : counts (key.series.key visibility timestamp, m.encode) = .ok m := by
  have hparts : (key.series.key visibility timestamp).parts = .aggregated key.parts.datatype :=
    Qualifier.ofBytes_datatype key.qualifier
  exact (counts_aggregated_eq_ok hparts).2 (DateMap.decode_encode h)

theorem decodes_sums (key : Key) (visibility : Bytes) (timestamp : UInt64) {m : DateMap}
    (h : m.Fits) : Decodes (key.series.key visibility timestamp, m.encode) :=
  decodes_iff.2 ⟨m, counts_sums key visibility timestamp h⟩

theorem tally_sums (key : Key) (visibility : Bytes) (timestamp : UInt64) {m : DateMap}
    (h : m.Fits) : tally (key.series.key visibility timestamp, m.encode) = (m, timestamp) := by
  rw [tally, held_of_counts (counts_sums key visibility timestamp h)]
  rfl

end Record

end DatedCounts
