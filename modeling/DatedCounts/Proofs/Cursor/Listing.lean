import DatedCounts.Proofs.Cursor.Climbing
import DatedCounts.Proofs.Cursor.Exposure

/-!
# What a store lists

A store is made of records in any order. After a seek it shows those of the range and of the chosen
families, each key once and with the value that was given for it last. Past the last of them it fails and
stays where it is.
-/

namespace DatedCounts

theorem Projection.allows_ofList {families : List Bytes} {inclusive : Bool} {family : Bytes} :
    (ofList families inclusive).allows family ↔
      families = [] ∨ (family ∈ families ↔ inclusive = true) := by
  have hempty : (OrderedSet.ofList families).isEmpty ↔ families = [] := by
    rw [OrderedSet.isEmpty_iff, List.eq_nil_iff_forall_not_mem, List.eq_nil_iff_forall_not_mem]
    simp only [OrderedSet.mem_ofList]
  have hcontains : (OrderedSet.ofList families).contains family ↔ family ∈ families :=
    OrderedSet.contains_iff.trans OrderedSet.mem_ofList
  rw [allows, ofList, Bool.or_eq_true, hempty, beq_iff_eq, Bool.eq_iff_iff, hcontains]

namespace Store

section Reached

variable {data : OrderedMap Key Bytes} {last : Option (Range × Projection)} {fault : Option Error}
  {s : Store}

/-- What lies ahead of a store is an end of its data, whatever was done with it. -/
theorem ahead_of_reached (h : Cursor.Reached (ofData data) last fault s) :
    s.ahead <:+ s.data.toList := by
  induction h with
  | start => exact List.nil_suffix
  | seek _ range projection ih => exact climbing.seek range projection ih
  | advance _ ih => exact climbing.advance ih
  | fork _ ih => exact ih

/-- An advance starts anew above the key of the top, and looks for the first record that is chosen. -/
theorem advance_eq_restart (h : Cursor.Reached (ofData data) last fault s) {top : Record}
    (htop : Cursor.top? s = some top) :
    Cursor.advance s =
      .done (s.moveTo (data.toList.filter fun record => (compare record.1 top.1).isGT)) := by
  have hsame : s.data = data := h.keeps (kept data) rfl
  obtain ⟨rest, hahead⟩ := List.head?_eq_some_iff.1 htop
  obtain ⟨passed, hdata⟩ := ahead_of_reached h
  rw [← hsame]
  rw [hahead] at hdata
  have hascending := s.data.ascending
  rw [← hdata] at hascending ⊢
  obtain ⟨_, hrest, hpassed⟩ := List.pairwise_append.1 hascending
  have hbelow : ∀ record ∈ passed, ¬ (compare record.1 top.1).isGT := by
    intro record hrecord
    rw [hpassed record hrecord top List.mem_cons_self]
    decide
  have habove : ∀ record ∈ rest, (compare record.1 top.1).isGT := by
    intro record hrecord
    have hlt := (List.pairwise_cons.1 hrest).1 record hrecord
    exact Ordering.isGT_iff_eq_gt.2 (Std.OrientedCmp.gt_of_lt hlt)
  have hfilter : ((passed ++ top :: rest).filter fun record => (compare record.1 top.1).isGT) =
      rest := by
    rw [List.filter_append, List.filter_eq_nil_iff.2 hbelow, List.filter_cons_of_neg (by simp),
      List.filter_eq_self.2 habove]
    rfl
  rw [hfilter, advance_of_cons hahead]

end Reached

/-- What a store of some records shows, whatever it did before: in ascending order the records of the range
and the chosen families, each with the value given for its key last, and then no more. Advances past the
end fail and change nothing. -/
theorem shows_given {entries : List Record} {last : Option (Range × Projection)}
    {fault : Option Error} {s : Store}
    (h : Cursor.Reached (ofData (.ofList entries)) last fault s) (range : Range)
    (families : List Bytes) (inclusive : Bool) :
    ∃ listed : List Record, Ascending listed ∧
      (∀ record, record ∈ listed ↔ entries.reverse.lookup record.1 = some record.2 ∧
        range.afterStart record.1 ∧ range.beforeEnd record.1 ∧
        (families = [] ∨ (record.1.family ∈ families ↔ inclusive = true))) ∧
      let moved := Cursor.moves (Cursor.seek range (.ofList families inclusive) s)
      (∀ n ≤ listed.length,
        (moved n).error? = none ∧ Cursor.top? (moved n).state = listed[n]?) ∧
      ∀ n, listed.length < n →
        ∃ e, e.kind = .fatal ∧ moved n = .failed e (moved listed.length).state := by
  have hdata : s.data = .ofList entries := h.keeps (kept _) rfl
  let projection := Projection.ofList families inclusive
  let listed := within s.data range projection
  have hopens : Cursor.Opens (Cursor.seek range projection s) listed none :=
    s.opens_seek range projection
  obtain ⟨top, hseek, hreads⟩ := hopens.exists_done
  obtain ⟨final, hfinal, hnone⟩ := hreads.moves_end
  rw [← hseek] at hfinal
  refine ⟨listed, within_ascending _ _ _, fun record => ?_, fun n hn => ?_, fun n hn => ?_⟩
  · rw [mem_within, Range.contains, Bool.and_eq_true, Projection.allows_ofList, hdata,
      ← OrderedMap.get?_ofList, OrderedMap.get?_eq_some_iff, and_assoc]
  · rcases Nat.lt_or_eq_of_le hn with hlt | rfl
    · obtain ⟨shown, hshown, htop⟩ := hopens.moves_of_lt hlt
      rw [hshown, List.getElem?_eq_getElem hlt]
      exact ⟨rfl, htop⟩
    · rw [hfinal, List.getElem?_eq_none (Nat.le_refl _)]
      exact ⟨rfl, hnone⟩
  · rw [hfinal]
    have hstate : (Cursor.moves (Cursor.seek range projection s) listed.length).state = final := by
      rw [hfinal]
      rfl
    obtain ⟨reader, hfails⟩ := Cursor.moves_of_none hstate hnone hn
    exact ⟨_, rfl, hfails⟩

/-- Records in no order, with two values for one key and one of another family. -/
def shuffled : List Record :=
  [(⟨[1], [2], [98], [], 1⟩, [1]), (⟨[1], [3], [97], [], 1⟩, [2]), (⟨[1], [2], [98], [], 1⟩, [3]),
    (⟨[1], [2], [97], [], 1⟩, [4])]

def bothFamilies : List Bytes := [[3], [2], [3]]

/-- A store that was positioned on a row without records, advanced in vain, and forked. -/
def ranOut : Store :=
  let top := (Cursor.seek (.ofRow [7]) .everything (ofData (.ofList shuffled))).state
  Cursor.fork (Cursor.advance top).state

theorem reached_ranOut : Cursor.Reached (ofData (.ofList shuffled))
    (some (.ofRow [7], .everything)) (some (.exhausted .store)) ranOut :=
  (Cursor.Reached.start.seek (.ofRow [7]) .everything).advance.fork

theorem shows_given_ranOut :
    Cursor.Reached (ofData (.ofList shuffled)) (some (.ofRow [7], .everything))
        (some (.exhausted .store)) ranOut ∧
      ∃ listed : List Record, Ascending listed ∧
        (∀ record, record ∈ listed ↔ shuffled.reverse.lookup record.1 = some record.2 ∧
          (Range.ofRow [1]).afterStart record.1 ∧ (Range.ofRow [1]).beforeEnd record.1 ∧
          (bothFamilies = [] ∨ (record.1.family ∈ bothFamilies ↔ true = true))) ∧
        let moved := Cursor.moves (Cursor.seek (.ofRow [1]) (.ofList bothFamilies true) ranOut)
        (∀ n ≤ listed.length,
          (moved n).error? = none ∧ Cursor.top? (moved n).state = listed[n]?) ∧
        ∀ n, listed.length < n →
          ∃ e, e.kind = .fatal ∧ moved n = .failed e (moved listed.length).state :=
  ⟨reached_ranOut, shows_given reached_ranOut (.ofRow [1]) bothFamilies true⟩

end Store

end DatedCounts
