import DatedCounts.Proofs.Cursor.Footprint
import DatedCounts.Proofs.Cursor.Rollup

/-!
# Sums that a rollup writes

Each record that a rollup reads has as its value the joined counts of some of the records of its source,
whether or not labels are combined, and also when the pass ends with an error later on. So it decodes if
what those records hold fits into memory.
-/

namespace DatedCounts

/-- The greater of the number of dates of a map and of the greatest length of one. -/
def DateMap.breadth (m : DateMap) : Nat :=
  m.toList.foldr (fun entry most => max entry.1.bytes.length most) m.size

theorem DateMap.atMost_iff {m : DateMap} {bound : Nat} : m.AtMost bound ↔ m.breadth ≤ bound := by
  have hfoldr : ∀ (entries : List (Text × Count)) (size : Nat),
      entries.foldr (fun entry most => max entry.1.bytes.length most) size ≤ bound ↔
        size ≤ bound ∧ ∀ entry ∈ entries, entry.1.bytes.length ≤ bound := by
    intro entries size
    induction entries with
    | nil => simp
    | cons entry entries ih =>
      rw [List.foldr_cons, Nat.max_le, ih, List.forall_mem_cons]
      exact and_left_comm
  rw [breadth, hfoldr]
  exact ⟨fun h => ⟨h.size, h.dates⟩, fun h => ⟨h.1, h.2⟩⟩

def Record.breadth (record : Record) : Nat := record.held.breadth

namespace Group

theorem exists_sums_of_mem {group : Group} (hlabels : group.labels.toList = []) {members : List Record}
    {combiner : Option Combiner} {out : List Record}
    (h : (group.addAll members).records combiner = .ok out) {sums : Record} (hsums : sums ∈ out) :
    ∃ part : List Record, part.Sublist members ∧ sums.2 = (Tally.sum (part.map Record.tally)).1.encode := by
  cases combiner with
  | none =>
    cases h
    obtain ⟨entry, hentry, rfl⟩ := List.mem_map.1 hsums
    have htally := get?_addAll group members entry.1
    rw [OrderedMap.get?_eq_some_iff.2 hentry, OrderedMap.get?, hlabels, List.find?_nil,
      Option.map_none, Option.merge_none_left] at htally
    obtain ⟨_, hsum⟩ := Tally.sum?_eq_some_iff.1 htally.symm
    refine ⟨members.filter fun member => member.1.visibility = entry.1, List.filter_sublist, ?_⟩
    rw [← hsum]
    rfl
  | some combine =>
    obtain ⟨label, _, rfl⟩ := records_some_eq_ok.1 h
    rw [List.mem_singleton.1 hsums]
    have hunion := union_addAll group members
    have hempty : group.union = Tally.zero := by
      rw [union, OrderedMap.values, hlabels]
      rfl
    rw [hempty, Tally.zero_join] at hunion
    exact ⟨members, .refl _, by rw [record, hunion]⟩

end Group

namespace Rollup

theorem exists_sums_of_mem_reading {combiner : Option Combiner} {records : List Record}
    {fault : Option Error} {sums : Record} :
    sums ∈ (reading combiner records fault).1 →
      ∃ part : List Record, part.Sublist records ∧
        sums.2 = (Tally.sum (part.map Record.tally)).1.encode := by
  fun_induction reading combiner records fault with
  | case1 | case2 | case3 => exact fun h => absurd h List.not_mem_nil
  | case4 first rest group left habsorb out hout later ih =>
    obtain ⟨members, hrecords, rfl, _, _⟩ := Group.absorb_eq_ok habsorb
    rw [hrecords]
    intro h
    rcases List.mem_append.1 h with h | h
    · obtain ⟨part, hpart, hvalue⟩ := Group.exists_sums_of_mem rfl hout h
      exact ⟨part, hpart.trans (List.sublist_append_left _ _), hvalue⟩
    · obtain ⟨part, hpart, hvalue⟩ := ih h
      exact ⟨part, hpart.trans (List.sublist_append_right _ _), hvalue⟩

/-- What a rollup reads decodes, if what the records of its source hold fits into memory. -/
theorem exists_decode_of_mem_reading {combiner : Option Combiner} {records : List Record}
    {fault : Option Error} (hfits : (records.map Record.breadth).sum < 2 ^ 64) {sums : Record}
    (h : sums ∈ (reading combiner records fault).1) : ∃ m, DateMap.decode sums.2 = .ok m := by
  obtain ⟨part, hpart, hvalue⟩ := exists_sums_of_mem_reading h
  have hatMost := Record.atMost_sum fun record (_ : record ∈ part) =>
    DateMap.atMost_iff.2 (Nat.le_refl record.breadth)
  have hle := (hpart.map Record.breadth).sum_le_sum fun _ _ => Nat.zero_le _
  rw [hvalue]
  exact ⟨_, DateMap.decode_encode (hatMost.fits (Nat.lt_of_le_of_lt hle hfits))⟩

end Rollup

end DatedCounts
