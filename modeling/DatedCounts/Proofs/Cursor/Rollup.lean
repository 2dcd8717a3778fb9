import DatedCounts.Cursor.Rollup
import DatedCounts.Proofs.Cursor.Reading
import DatedCounts.Proofs.Cursor.Tally

/-!
# What a rollup reads

A rollup takes the records of its source group by group. What it reads depends on no more than the
records that its source reads and on the error that ends them: each group absorbs the records at the
front that it holds, yields its own records, and leaves the others to the groups behind it. A group that
cannot be summed up ends the pass.
-/

namespace DatedCounts

namespace Group

/-- The group with the records at the front added that it holds, and the records behind those. The
fault, if any, is that of the move past the last record. -/
def absorb : Group → List Record → Option Error → Except Error (Group × List Record)
  | group, [], _ => .ok (group, [])
  | group, record :: rest, fault =>
    if group.holds record.1 then
      match record.counts, if rest.isEmpty then fault else none with
      | .error e, _ => .error e
      | .ok _, some e => .error e
      | .ok counts, none => absorb (group.add record.1 counts) rest fault
    else .ok (group, record :: rest)

theorem absorb_eq_ok {group sums : Group} {records left : List Record} {fault : Option Error}
    (h : group.absorb records fault = .ok (sums, left)) :
    ∃ members, records = members ++ left ∧ sums = group.addAll members ∧
      (∀ member ∈ members, group.holds member.1 ∧ member.Decodes) ∧
      ∀ record ∈ left.head?, group.holds record.1 = false := by
  induction records generalizing group with
  | nil =>
    cases h
    exact ⟨[], rfl, rfl, by simp, by simp⟩
  | cons record rest ih =>
    rw [absorb] at h
    by_cases hholds : group.holds record.1
    · rw [if_pos hholds] at h
      split at h
      · cases h
      · cases h
      · next counts hcounts _ =>
        obtain ⟨members, hrecords, hsums, hmembers, hleft⟩ := ih h
        have hheld := Record.held_of_counts hcounts
        refine ⟨record :: members, congrArg (record :: ·) hrecords, ?_, ?_, hleft⟩
        · rw [hsums, ← hheld]
          rfl
        · intro member hmember
          rcases List.mem_cons.1 hmember with rfl | hmember
          · exact ⟨hholds, Record.decodes_iff.2 ⟨counts, hcounts⟩⟩
          · exact hmembers member hmember
    · rw [if_neg hholds] at h
      cases h
      exact ⟨[], rfl, rfl, by simp, by simpa using hholds⟩

theorem labels_addAll_ne_nil (group : Group) {records : List Record} (h : records ≠ []) :
    (group.addAll records).labels.toList ≠ [] := by
  cases records with
  | nil => exact absurd rfl h
  | cons record rest =>
    intro hempty
    have hget := get?_addAll group (record :: rest) record.1.visibility
    rw [OrderedMap.get?, hempty] at hget
    cases hlabel : group.labels.get? record.1.visibility <;> simp [hlabel, Tally.sum?] at hget

theorem size_labels_addAll_le (group : Group) (records : List Record) :
    (group.addAll records).labels.size ≤ group.labels.size + records.length := by
  induction records generalizing group with
  | nil => exact Nat.le_refl _
  | cons record rest ih =>
    have hrest := ih (group.add record.1 record.held)
    have hadd : (group.add record.1 record.held).labels.size ≤ group.labels.size + 1 :=
      OrderedMap.size_insert_le _ _ _
    simp only [List.length_cons]
    exact Nat.le_trans hrest (by omega)

theorem records_some_eq_ok {group : Group} {combine : Combiner} {out : List Record} :
    group.records (some combine) = .ok out ↔ ∃ label, combine group.labels.keys = .ok label ∧
      out = [group.record label group.union.1 group.union.2] := by
  rw [records]
  cases combine group.labels.keys <;> simp [Except.map, eq_comm]

theorem records_some_eq_error {group : Group} {combine : Combiner} {e : Error} :
    group.records (some combine) = .error e ↔ combine group.labels.keys = .error e := by
  rw [records]
  cases combine group.labels.keys <;> simp [Except.map]

theorem records_bounds {group : Group} {combiner : Option Combiner} {out : List Record}
    (hlabels : group.labels.toList ≠ []) (h : group.records combiner = .ok out) :
    out ≠ [] ∧ out.length ≤ group.labels.size := by
  cases combiner with
  | none =>
    cases h
    simp [recordsByLabel, OrderedMap.size, hlabels]
  | some combine =>
    obtain ⟨label, _, rfl⟩ := records_some_eq_ok.1 h
    exact ⟨List.cons_ne_nil _ _, List.length_pos_iff.2 hlabels⟩

theorem absorb_ofKey {first : Record} {rest left : List Record} {fault : Option Error}
    {group : Group} (h : (ofKey first.1).absorb (first :: rest) fault = .ok (group, left)) :
    group.labels.toList ≠ [] ∧ group.labels.size + left.length ≤ (first :: rest).length ∧
      left.length < (first :: rest).length := by
  obtain ⟨members, hrecords, rfl, _, hleft⟩ := absorb_eq_ok h
  have hmembers : members ≠ [] := by
    rintro rfl
    have hfirst := hleft first (by rw [← List.nil_append left, ← hrecords]; rfl)
    simp [holds_iff.2 (show first.1.series = (ofKey first.1).series from rfl)] at hfirst
  have hsize := size_labels_addAll_le (ofKey first.1) members
  have hempty : (ofKey first.1).labels.size = 0 := rfl
  have hpos := List.length_pos_iff.2 hmembers
  rw [hrecords, List.length_append]
  exact ⟨labels_addAll_ne_nil _ hmembers, by omega, by omega⟩

end Group

namespace Rollup

/-- The records that a rollup reads from the records of its source, and the error that ends them. -/
def reading (combiner : Option Combiner) (records : List Record) (fault : Option Error) :
    List Record × Option Error :=
  match records with
  | [] => ([], fault)
  | first :: rest =>
    match _habsorb : (Group.ofKey first.1).absorb (first :: rest) fault with
    | .error e => ([], some e)
    | .ok (group, left) =>
      match group.records combiner with
      | .error e => ([], some e)
      | .ok out =>
        let later := reading combiner left fault
        (out ++ later.1, later.2)
termination_by records.length
decreasing_by exact (Group.absorb_ofKey _habsorb).2.2

theorem reading_cons (combiner : Option Combiner) (first : Record) (rest : List Record)
    (fault : Option Error) :
    reading combiner (first :: rest) fault =
      match (Group.ofKey first.1).absorb (first :: rest) fault with
      | .error e => ([], some e)
      | .ok (group, left) =>
        match group.records combiner with
        | .error e => ([], some e)
        | .ok out =>
          let later := reading combiner left fault
          (out ++ later.1, later.2) := by
  rw [reading]
  split <;> simp_all

theorem length_reading_le (combiner : Option Combiner) (records : List Record)
    (fault : Option Error) : (reading combiner records fault).1.length ≤ records.length := by
  fun_induction reading combiner records fault with
  | case1 => exact Nat.le_refl _
  | case2 | case3 => exact Nat.zero_le _
  | case4 first rest group left habsorb out hout later ih =>
    obtain ⟨hlabels, hlength, _⟩ := Group.absorb_ofKey habsorb
    have hbound := (Group.records_bounds hlabels hout).2
    have hlater : later.1.length ≤ left.length := ih
    rw [List.length_append]
    omega

variable {σ : Type} [Cursor σ]

theorem gather_eq [Cursor.Sized σ] {source : σ} {records : List Record} {fault : Option Error}
    (hreads : Cursor.Reads source records fault) {steps : Nat} (hsteps : records.length < steps)
    (group : Group) (s : Rollup σ) (hsource : s.source = source) :
    match group.absorb records fault with
    | .error e => (gather steps group s).2 = .error e
    | .ok (sums, left) => ∃ s', gather steps group s = (s', .ok sums) ∧
        s'.combiner = s.combiner ∧ s'.pending = s.pending ∧
        Cursor.size s'.source = Cursor.size source ∧ Cursor.Reads s'.source left fault := by
  induction hreads generalizing steps group s with
  | ended htop =>
    cases steps with
    | zero => cases hsteps
    | succ steps =>
      subst hsource
      exact ⟨s, by simp only [gather, htop], rfl, rfl, rfl, .ended htop⟩
  | @failed source source' record e htop hmove =>
    cases steps with
    | zero => cases hsteps
    | succ steps =>
      subst hsource
      obtain ⟨key, value⟩ := record
      rw [Group.absorb]
      by_cases hholds : group.holds key
      · rw [if_pos hholds]
        simp only [gather, htop, if_pos hholds]
        cases Record.counts (key, value) with
        | error => rfl
        | ok counts => simp [countInput, hmove]
      · rw [if_neg hholds]
        exact ⟨s, by simp only [gather, htop, if_neg hholds], rfl, rfl, rfl, .failed htop hmove⟩
  | @next source source' record rest fault htop hmove hrest ih =>
    cases steps with
    | zero => cases hsteps
    | succ steps =>
      subst hsource
      obtain ⟨key, value⟩ := record
      rw [Group.absorb]
      by_cases hholds : group.holds key
      · rw [if_pos hholds]
        simp only [gather, htop, if_pos hholds]
        cases Record.counts (key, value) with
        | error => rfl
        | ok counts =>
          have hfault : (if rest.isEmpty then fault else none) = none := by
            cases rest with
            | nil => exact hrest.fault_eq_none
            | cons => rfl
          have hnext := ih (Nat.lt_of_succ_lt_succ hsteps) (group.add key counts)
            { s.countInput key with source := source' } rfl
          have hsize := Cursor.size_advance s.source
          rw [hmove] at hsize
          simp only [hfault]
          rw [show (s.countInput key).source = s.source from rfl, hmove, ← hsize]
          exact hnext
      · rw [if_neg hholds]
        exact ⟨s, by simp only [gather, htop, if_neg hholds], rfl, rfl, rfl,
          .next htop hmove hrest⟩

private theorem reads_pending {pending later : List Record} {fault : Option Error}
    (hpending : pending ≠ []) (s : Rollup σ) (hs : s.pending = pending)
    (hnext : ∀ s' : Rollup σ, s'.source = s.source → s'.combiner = s.combiner → s'.pending = [] →
      Cursor.Opens (nextGroup s') later fault) :
    Cursor.Reads s (pending ++ later) fault := by
  induction pending generalizing s with
  | nil => exact absurd rfl hpending
  | cons record rest ih =>
    have htop : Cursor.top? s = some record := congrArg List.head? hs
    cases rest with
    | nil =>
      have hmove : Cursor.advance s = nextGroup { s with pending := [] } := by
        change advance s = _
        rw [advance, hs]
      have hopens := hnext { s with pending := [] } rfl rfl rfl
      rw [← hmove] at hopens
      exact hopens.cons htop
    | cons second rest =>
      have hmove : Cursor.advance s = .done (s.present (second :: rest)) := by
        change advance s = _
        rw [advance, hs]
      exact .next htop hmove (ih (List.cons_ne_nil _ _) (s.present (second :: rest)) rfl hnext)

theorem opens_nextGroup [Cursor.Sized σ] {records : List Record} {fault : Option Error}
    (s : Rollup σ) (hpending : s.pending = []) (hreads : Cursor.Reads s.source records fault)
    (hsize : records.length ≤ Cursor.size s.source) :
    Cursor.Opens (nextGroup s) (reading s.combiner records fault).1
      (reading s.combiner records fault).2 := by
  induction hn : records.length using Nat.strongRecOn generalizing records s with
  | ind n ih =>
    have htop := hreads.top?_eq
    cases records with
    | nil =>
      rw [reading, hreads.fault_eq_none, nextGroup, htop]
      exact .ended (congrArg List.head? hpending)
    | cons first rest =>
      have hgather := gather_eq hreads (Nat.lt_succ_of_le hsize) (.ofKey first.1) s rfl
      rw [reading_cons, nextGroup, htop]
      simp only [List.head?_cons]
      cases habsorb : (Group.ofKey first.1).absorb (first :: rest) fault with
      | error e =>
        rw [habsorb] at hgather
        revert hgather
        cases gather (Cursor.size s.source + 1) (.ofKey first.1) s with
        | mk s' read =>
          rintro rfl
          exact ⟨rfl, rfl⟩
      | ok result =>
        obtain ⟨group, left⟩ := result
        rw [habsorb] at hgather
        obtain ⟨s', heq, hcombiner, -, hsource, hleft⟩ := hgather
        obtain ⟨hlabels, hlength, hshorter⟩ := Group.absorb_ofKey habsorb
        simp only [heq, hcombiner]
        cases hout : group.records s.combiner with
        | error e => exact ⟨rfl, rfl⟩
        | ok out =>
          refine reads_pending (Group.records_bounds hlabels hout).1 _ rfl ?_
          intro later hlater hsame hempty
          change later.source = s'.source at hlater
          change later.combiner = s'.combiner at hsame
          rw [← hcombiner, ← hsame]
          refine ih left.length (by omega) later hempty (hlater ▸ hleft) ?_ rfl
          rw [hlater, hsource]
          omega

/-- A rollup reads the groups of what its source reads in the widened range. -/
theorem opens_seek [Cursor.Sized σ] {range : Range} {projection : Projection} {s : Rollup σ}
    {records : List Record} {fault : Option Error}
    (hopens : Cursor.Opens (Cursor.seek range.widened projection s.source) records fault)
    (hsize : records.length ≤ Cursor.size s.source) :
    Cursor.Opens (Cursor.seek range projection s) (reading s.combiner records fault).1
      (reading s.combiner records fault).2 := by
  rw [← Cursor.size_seek range.widened projection s.source] at hsize
  change Cursor.Opens (seek range projection s) _ _
  rw [seek]
  simp only
  cases hseek : Cursor.seek range.widened projection s.source with
  | failed e source =>
    rw [hseek] at hopens
    obtain ⟨rfl, rfl⟩ := hopens
    rw [reading]
    exact ⟨rfl, rfl⟩
  | done source =>
    rw [hseek] at hopens hsize
    exact opens_nextGroup { s with pending := [], source := source } rfl hopens hsize

/-! ### What a rollup keeps -/

theorem pending_gather (steps : Nat) (group : Group) (s : Rollup σ) :
    (gather steps group s).1.pending = s.pending := by
  induction steps generalizing group s with
  | zero => rfl
  | succ steps ih =>
    rw [gather]
    split
    · rfl
    · next key value _ =>
      split
      · split
        · rfl
        · simp only
          split
          · rfl
          · exact ih _ _
      · rfl

section Keeps

variable {P : σ → Prop} (hP : ∀ {s}, P s → P (Cursor.advance s).state) {combiner : Option Combiner}
include hP

/-- Whatever advances of the source keep is kept as a group is gathered. -/
theorem gather_keeps (steps : Nat) (group : Group) {s : Rollup σ}
    (h : P s.source ∧ s.combiner = combiner) :
    P (gather steps group s).1.source ∧ (gather steps group s).1.combiner = combiner := by
  induction steps generalizing group s with
  | zero => exact h
  | succ steps ih =>
    rw [gather]
    cases Cursor.top? s.source with
    | none => exact h
    | some record =>
      obtain ⟨key, value⟩ := record
      simp only
      split
      · cases Record.counts (key, value) with
        | error => exact h
        | ok counts =>
          have hmoved := hP h.1
          simp only [show (s.countInput key).source = s.source from rfl]
          cases hmove : Cursor.advance s.source with
          | failed e source =>
            rw [hmove] at hmoved
            exact ⟨hmoved, h.2⟩
          | done source =>
            rw [hmove] at hmoved
            exact ih (group.add key counts) ⟨hmoved, h.2⟩
      · exact h

theorem nextGroup_keeps {s : Rollup σ} (h : P s.source ∧ s.combiner = combiner) :
    P (nextGroup s).state.source ∧ (nextGroup s).state.combiner = combiner := by
  rw [nextGroup]
  cases Cursor.top? s.source with
  | none => exact h
  | some record =>
    have hgather := gather_keeps hP (Cursor.size s.source + 1) (.ofKey record.1) h
    revert hgather
    simp only
    cases gather (Cursor.size s.source + 1) (.ofKey record.1) s with
    | mk s' read =>
      intro hgather
      cases read with
      | error => exact hgather
      | ok group =>
        simp only
        split <;> exact hgather

end Keeps

theorem kept {P : σ → Prop} (hP : Cursor.Kept P) (combiner : Option Combiner) :
    Cursor.Kept fun s : Rollup σ => P s.source ∧ s.combiner = combiner where
  seek {s} range projection h := by
    refine Outcome.state_andThen (Q := fun s : Rollup σ => P s.source ∧ s.combiner = combiner)
      (hP.seek range.widened projection h.1) ?_ ?_
    · exact fun source hsource => nextGroup_keeps hP.advance ⟨hsource, h.2⟩
    · exact fun source hsource => ⟨hsource, h.2⟩
  advance {s} h := by
    change P (advance s).state.source ∧ (advance s).state.combiner = _
    rw [advance]
    split
    · exact h
    · exact nextGroup_keeps hP.advance h
    · exact h
  fork h := ⟨hP.fork h.1, h.2⟩

instance [Cursor.Sized σ] : Cursor.Sized (Rollup σ) where
  kept n := {
    seek := fun {s} range projection h =>
      ((kept (Cursor.Sized.kept n) s.combiner).seek range projection ⟨h, rfl⟩).1
    advance := fun {s} h => ((kept (Cursor.Sized.kept n) s.combiner).advance ⟨h, rfl⟩).1
    fork := fun {s} h => ((kept (Cursor.Sized.kept n) s.combiner).fork ⟨h, rfl⟩).1 }

end Rollup

end DatedCounts
