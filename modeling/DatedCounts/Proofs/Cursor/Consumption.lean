import DatedCounts.Proofs.Cursor.Accounts
import DatedCounts.Proofs.Cursor.Collapse
import DatedCounts.Proofs.Cursor.Forking

/-!
# What a rollup counts

A rollup counts the records that it takes from its source as it gathers a group, the group once it is
complete, and a record of its own each time that it shows one. Whatever is called and whichever of the
calls fail, what is counted is that of some records, of no more groups than records, and of the calls that
showed a record. A pass to the end takes each record of its source once, and each series as one group.
-/

namespace DatedCounts

namespace Rollup

/-! ### Counters -/

namespace Stats

/-- What is counted for some records that are taken, for groups of them and for records that are shown. -/
def gain (groups : Nat) (taken : List Record) (shown : Nat) : Stats :=
  ⟨groups, taken.length, taken.countP (·.1.parts.isRaw), taken.countP (!·.1.parts.isRaw), shown⟩

theorem gain_add (groups others : Nat) (xs ys : List Record) (shown later : Nat) :
    gain groups xs shown + gain others ys later = gain (groups + others) (xs ++ ys) (shown + later) := by
  simp only [gain, List.length_append, List.countP_append]
  rfl

theorem add_gain_add (stats : Stats) (groups others : Nat) (xs ys : List Record) (shown later : Nat) :
    stats + gain groups xs shown + gain others ys later =
      stats + gain (groups + others) (xs ++ ys) (shown + later) := by
  rw [add_assoc, gain_add]

theorem input_gain (groups : Nat) (taken : List Record) (shown : Nat) :
    (gain groups taken shown).input = (gain groups taken shown).raw +
      (gain groups taken shown).aggregated := by
  have hsplit :=
    List.length_eq_countP_add_countP (fun record : Record => record.1.parts.isRaw) (l := taken)
  simpa [gain] using hsplit

end Stats

variable {σ : Type}

theorem stats_countInput (s : Rollup σ) (record : Record) :
    (s.countInput record.1).stats = s.stats + .gain 0 [record] 0 := by
  simp only [countInput, Stats.gain, List.countP_singleton]
  cases record.1.parts.isRaw <;> rfl

def showing (pending : List Record) : Nat := if pending.isEmpty then 0 else 1

theorem stats_countGroup (s : Rollup σ) : s.countGroup.stats = s.stats + .gain 1 [] 0 := rfl

theorem stats_present (s : Rollup σ) (pending : List Record) :
    (s.present pending).stats = s.stats + .gain 0 [] (showing pending) := rfl

variable [Cursor σ]

/-! ### Gathering a group -/

/-- As a group is gathered, some records are taken and counted. If the group becomes complete, they are
those at the front of what the source reads. -/
theorem gather_takes (steps : Nat) (group : Group) (s : Rollup σ) :
    ∃ taken, (gather steps group s).1.stats = s.stats + .gain 0 taken 0 ∧
      ∀ sums, (gather steps group s).2 = .ok sums →
        (0 < steps → (∃ record ∈ Cursor.top? s.source, group.holds record.1) → taken ≠ []) ∧
        ∀ records, Cursor.Reads s.source records none →
          ∃ left, records = taken ++ left ∧
            Cursor.Reads (gather steps group s).1.source left none := by
  -- One induction for all, as each part speaks of the same records. Those of a failed group count too.
  induction steps generalizing group s with
  | zero => exact ⟨[], rfl, fun _ _ => ⟨by simp, fun records h => ⟨records, rfl, h⟩⟩⟩
  | succ steps ih =>
    rw [gather]
    cases htop : Cursor.top? s.source with
    | none => exact ⟨[], rfl, fun _ _ => ⟨by simp, fun records h => ⟨records, rfl, h⟩⟩⟩
    | some record =>
      obtain ⟨key, value⟩ := record
      simp only
      by_cases hholds : group.holds key
      · rw [if_pos hholds]
        cases Record.counts (key, value) with
        | error e => exact ⟨[], rfl, fun sums hsums => by cases hsums⟩
        | ok counts =>
          have hcount : (s.countInput key).stats = s.stats + .gain 0 [(key, value)] 0 :=
            stats_countInput s (key, value)
          simp only [show (s.countInput key).source = s.source from rfl]
          cases hmove : Cursor.advance s.source with
          | failed e source => exact ⟨[(key, value)], hcount, fun sums hsums => by cases hsums⟩
          | done source =>
            obtain ⟨taken, hstats, hok⟩ :=
              ih (group.add key counts) { s.countInput key with source }
            refine ⟨(key, value) :: taken, ?_, fun sums hsums => ⟨by simp, fun _ hreads => ?_⟩⟩
            · rw [hstats]
              simp only [hcount, Stats.add_gain_add, List.singleton_append]
            · cases hreads with
              | ended hnone => simp [htop] at hnone
              | next hsome hnext hrest =>
                obtain rfl := Option.some.inj (htop.symm.trans hsome)
                obtain rfl := Outcome.done.inj (hmove.symm.trans hnext)
                obtain ⟨left, hsplit, hleft⟩ := (hok sums hsums).2 _ hrest
                exact ⟨left, congrArg (_ :: ·) hsplit, hleft⟩
      · rw [if_neg hholds]
        exact ⟨[], rfl, fun _ _ => ⟨by simp [hholds], fun records h => ⟨records, rfl, h⟩⟩⟩

/-! ### Calls -/

/-- Whether a rollup has counted, since some counters, some records, no more groups than records, and the
record that it shows. -/
def Counted (before : Stats) (s : Rollup σ) : Prop :=
  ∃ groups taken, groups ≤ taken.length ∧ s.stats = before + .gain groups taken (showing s.pending)

theorem counted_nextGroup {s : Rollup σ} (hpending : s.pending = []) :
    Counted s.stats (nextGroup s).state := by
  rw [nextGroup]
  cases htop : Cursor.top? s.source with
  | none =>
    refine ⟨0, [], Nat.le_refl _, ?_⟩
    rw [Outcome.state, hpending]
    rfl
  | some record =>
    obtain ⟨taken, hstats, hok⟩ :=
      gather_takes (Cursor.size s.source + 1) (.ofKey record.1) s
    have hkept := (pending_gather (Cursor.size s.source + 1) (.ofKey record.1) s).trans hpending
    revert hstats hok hkept
    simp only
    cases gather (Cursor.size s.source + 1) (.ofKey record.1) s with
    | mk s' read =>
      intro hstats hok hkept
      cases read with
      | error e =>
        refine ⟨0, taken, Nat.zero_le _, ?_⟩
        rw [Outcome.state, hkept, hstats]
        rfl
      | ok group =>
        have hfirst : (Group.ofKey record.1).holds record.1 := Group.holds_iff.2 rfl
        have htaken := (hok group rfl).1 (Nat.succ_pos _) ⟨record, htop, hfirst⟩
        have hgroup : s'.countGroup.stats = s.stats + .gain 1 taken 0 := by
          rw [stats_countGroup, hstats, Stats.add_gain_add, List.append_nil]
        simp only
        cases group.records s'.combiner with
        | error e =>
          have hnone : s'.countGroup.pending = [] := hkept
          refine ⟨1, taken, List.length_pos_iff.2 htaken, ?_⟩
          rw [Outcome.state, hgroup, hnone]
          rfl
        | ok out =>
          refine ⟨1, taken, List.length_pos_iff.2 htaken, ?_⟩
          rw [Outcome.state, stats_present, hgroup, Stats.add_gain_add, List.append_nil,
            Nat.zero_add]
          rfl

theorem counted_call (s : Rollup σ) (next : Cursor.Call) :
    Counted s.stats (Cursor.call s next).state := by
  cases next with
  | seek range projection =>
    change Counted s.stats (seek range projection s).state
    rw [seek]
    simp only
    cases Cursor.seek range.widened projection s.source with
    | failed e source => exact ⟨0, [], Nat.le_refl _, rfl⟩
    | done source => exact counted_nextGroup (s := { s with pending := [], source }) rfl
  | advance =>
    change Counted s.stats (advance s).state
    rw [advance]
    split
    · next hpending =>
      refine ⟨0, [], Nat.le_refl _, ?_⟩
      rw [Outcome.state, hpending]
      rfl
    · exact counted_nextGroup (s := { s with pending := [] }) rfl
    · next later rest _ => exact ⟨0, [], Nat.le_refl _, stats_present s (later :: rest)⟩

/-- What calls count adds up to some records, no more groups than records, and the calls that showed a
record. -/
theorem counted_after (s : Rollup σ) (calls : List Cursor.Call) :
    ∃ groups taken, groups ≤ taken.length ∧ (Cursor.after s calls).stats =
      s.stats + .gain groups taken ((Cursor.sights s calls).countP (·.2.isSome)) := by
  induction calls generalizing s with
  | nil => exact ⟨0, [], Nat.le_refl _, rfl⟩
  | cons next calls ih =>
    obtain ⟨groups, taken, hle, hstats⟩ := counted_call s next
    obtain ⟨others, more, hmore, hlater⟩ := ih (Cursor.call s next).state
    refine ⟨groups + others, taken ++ more, ?_, ?_⟩
    · rw [List.length_append]
      exact Nat.add_le_add hle hmore
    · have hshown : showing (Cursor.call s next).state.pending =
          if (Cursor.top? (Cursor.call s next).state).isSome then 1 else 0 := by
        change showing _ = if (List.head? _).isSome then 1 else 0
        cases (Cursor.call s next).state.pending <;> rfl
      change (Cursor.after (Cursor.call s next).state calls).stats = _
      rw [hlater, hstats, Stats.add_gain_add, hshown, Nat.add_comm (ite _ _ _), Cursor.sights,
        List.countP_cons]

/-! ### Passes to the end -/

theorem length_seriesIn (records : List Record) :
    (seriesIn records).length = (records.map (·.1.series)).dedup.length := by
  have hnodup : (seriesIn records).Nodup := (seriesIn_ascending records).imp ne_of_compare_lt
  refine ((List.perm_ext_iff_of_nodup hnodup (List.nodup_dedup _)).2 fun series => ?_).length_eq
  rw [mem_seriesIn, List.mem_dedup, List.mem_map]

/-- A rollup that has taken some of the records that its source read, and whole series of them only. -/
structure Consumed (before : Stats) (records left : List Record) (shown : Nat) (s : Rollup σ) :
    Prop where
  reads : Cursor.Reads s.source left none
  bounded : left.length ≤ Cursor.size s.source
  ended : s.pending = [] → left = []
  counted : ∃ groups taken, taken ++ left = records ∧
    groups + (seriesIn left).length = (seriesIn records).length ∧
    s.stats = before + .gain groups taken shown

section Passes

variable {before : Stats} {records left later : List Record} {shown more : Nat} {s s' : Rollup σ}

theorem Consumed.trans (h : Consumed before records left shown s)
    (h' : Consumed s.stats left later more s') : Consumed before records later (shown + more) s' where
  reads := h'.reads
  bounded := h'.bounded
  ended := h'.ended
  counted := by
    obtain ⟨groups, taken, rfl, hgroups, hstats⟩ := h.counted
    obtain ⟨others, behind, rfl, hothers, hstats'⟩ := h'.counted
    refine ⟨groups + others, taken ++ behind, List.append_assoc _ _ _, by omega, ?_⟩
    rw [hstats', hstats, Stats.add_gain_add]

theorem Consumed.ascending (h : Consumed before records left shown s) (hrecords : Ascending records) :
    Ascending left := by
  obtain ⟨_, taken, rfl, _, _⟩ := h.counted
  exact (List.pairwise_append.1 hrecords).2.1

theorem nextGroup_eq_done (hmove : nextGroup s = .done s') :
    Cursor.top? s.source = none ∧ s' = s ∨ ∃ first gathered group out,
      Cursor.top? s.source = some first ∧
      gather (Cursor.size s.source + 1) (.ofKey first.1) s = (gathered, .ok group) ∧
      group.records gathered.combiner = .ok out ∧ s' = gathered.countGroup.present out := by
  rw [nextGroup] at hmove
  cases htop : Cursor.top? s.source with
  | none =>
    simp only [htop] at hmove
    exact .inl ⟨rfl, (Outcome.done.inj hmove).symm⟩
  | some first =>
    simp only [htop] at hmove
    split at hmove
    · cases hmove
    · next gathered group hgather =>
      split at hmove
      · cases hmove
      · next out hout =>
        exact .inr ⟨first, gathered, group, out, rfl, hgather, hout, (Outcome.done.inj hmove).symm⟩

/-- A group that is read takes all records of the first series that is left. -/
theorem nextGroup_consumes [Cursor.Sized σ] (hpending : s.pending = []) (hrecords : Ascending records)
    (hreads : Cursor.Reads s.source records none) (hsize : records.length ≤ Cursor.size s.source)
    (hmove : nextGroup s = .done s') :
    ∃ left, Consumed s.stats records left (showing s'.pending) s' := by
  have hhead := hreads.top?_eq
  rcases nextGroup_eq_done hmove with
    ⟨htop, rfl⟩ | ⟨first, gathered, group, out, htop, hgather, hout, rfl⟩
  · obtain rfl : records = [] := List.head?_eq_none_iff.1 (hhead.symm.trans htop)
    rw [hpending]
    exact ⟨[], hreads, hsize, fun _ => rfl, 0, [], rfl, rfl, rfl⟩
  · obtain ⟨rest, rfl⟩ := List.head?_eq_some_iff.1 (hhead.symm.trans htop)
    obtain ⟨taken, hstats, hok⟩ := gather_takes (Cursor.size s.source + 1) (.ofKey first.1) s
    have habsorbed := gather_eq hreads (Nat.lt_succ_of_le hsize) (.ofKey first.1) s rfl
    have habsorb := Group.absorb_first hrecords
    rw [hgather] at hstats hok habsorbed
    rw [habsorb] at habsorbed
    cases hfault : (seriesOf first.1.series (first :: rest)).findSome? Record.fault? with
    | some e =>
      rw [hfault] at habsorbed
      cases habsorbed
    | none =>
      rw [hfault] at habsorb habsorbed
      obtain ⟨_, heq, _, _, hsame, hleft⟩ := habsorbed
      cases heq
      obtain ⟨left, hsplit, hreadsLeft⟩ := (hok _ rfl).2 _ hreads
      -- What is left was not absorbed, so the records that were taken are all those of the series.
      obtain ⟨rfl, _⟩ := hleft.unique hreadsLeft
      have hnonempty := (Group.records_bounds (Group.absorb_ofKey habsorb).1 hout).1
      refine ⟨_, hreadsLeft, ?_, fun hnone => absurd hnone hnonempty, 1, taken, hsplit.symm, ?_, ?_⟩
      · have hlength := congrArg List.length hsplit
        rw [List.length_append] at hlength
        change _ ≤ Cursor.size gathered.source
        omega
      · rw [seriesIn_cons hrecords, List.length_cons, Nat.add_comm]
      · rw [stats_present, stats_countGroup, hstats, Stats.add_gain_add, Stats.add_gain_add,
          List.append_nil, List.append_nil, Nat.zero_add, Nat.zero_add, Nat.add_zero, Nat.zero_add]
        rfl

theorem Consumed.advance [Cursor.Sized σ] (h : Consumed before records left shown s)
    (hrecords : Ascending records) (hmove : Cursor.advance s = .done s') :
    ∃ later, Consumed before records later (shown + showing s'.pending) s' := by
  change Rollup.advance s = _ at hmove
  rw [Rollup.advance] at hmove
  split at hmove
  · cases hmove
  · obtain ⟨later, hlater⟩ := nextGroup_consumes (s := { s with pending := [] }) rfl
      (h.ascending hrecords) h.reads h.bounded hmove
    exact ⟨later, h.trans hlater⟩
  · next _ second rest _ =>
    obtain rfl := Outcome.done.inj hmove
    have hlater : Consumed s.stats left left 1 (s.present (second :: rest)) :=
      ⟨h.reads, h.bounded, (absurd · (List.cons_ne_nil _ _)), 0, [], rfl, Nat.zero_add _, rfl⟩
    exact ⟨left, h.trans hlater⟩

/-- A pass to the end counts the records that the source reads, a group for each series of them, and the
records that it shows. -/
theorem stats_of_scans [Cursor.Sized σ] {range : Range} {projection : Projection} {out : List Record}
    {last : Rollup σ} (hrecords : Ascending records)
    (hopens : Cursor.Opens (Cursor.seek range.widened projection s.source) records none)
    (hsize : records.length ≤ Cursor.size s.source)
    (h : Cursor.Scans (Cursor.seek range projection s) out last) :
    last.stats = s.stats + .gain (seriesIn records).length records out.length := by
  obtain ⟨source, hsource, hreads⟩ := hopens.exists_done
  have hsame := Cursor.size_seek range.widened projection s.source
  rw [hsource] at hsame
  obtain ⟨hopens, hmoves, hlast⟩ := h
  have hseek : Cursor.seek range projection s = nextGroup { s with pending := [], source } := by
    change seek range projection s = _
    rw [seek]
    simp only [hsource]
    rfl
  obtain ⟨top, htop, hout⟩ := hopens.exists_done
  rw [htop] at hmoves hseek
  obtain ⟨left, hfirst⟩ := nextGroup_consumes (s := { s with pending := [], source }) rfl hrecords
    hreads (hsize.trans_eq hsame.symm) hseek.symm
  -- After n advances the records shown are the n that were passed and the one on top, if there is one.
  let P : Nat → Rollup σ → Prop := fun n s' =>
    ∃ left, Consumed s.stats records left (n + showing s'.pending) s'
  have hstep : ∀ {n : Nat} {t t' : Rollup σ} {record : Record}, P n t →
      Cursor.top? t = some record → Cursor.advance t = .done t' → P (n + 1) t' := by
    rintro n t t' record ⟨left, ht⟩ hrecord hmove
    obtain ⟨rest, hpending⟩ := List.head?_eq_some_iff.1 hrecord
    rw [hpending] at ht
    exact ht.advance hrecords hmove
  obtain ⟨final, hfinal, _, left, hconsumed⟩ := hout.moves_end_of (P := P) hstep (n := 0)
    ⟨left, by rw [Nat.zero_add]; exact hfirst⟩
  obtain rfl := Outcome.done.inj (hfinal.symm.trans hmoves)
  have hpending : final.pending = [] := List.head?_eq_none_iff.1 hlast
  obtain rfl := hconsumed.ended hpending
  obtain ⟨groups, taken, htaken, hgroups, hstats⟩ := hconsumed.counted
  rw [List.append_nil] at htaken
  rw [hstats, htaken, ← hgroups, hpending, Nat.zero_add]
  rfl

theorem fault_eq_none_of_opens [Cursor.Sized σ] {range : Range} {projection : Projection}
    {out : List Record} {fault : Option Error}
    (hsource : Cursor.Opens (Cursor.seek range.widened projection s.source) records fault)
    (hsize : records.length ≤ Cursor.size s.source)
    (h : Cursor.Opens (Cursor.seek range projection s) out none) : fault = none := by
  have hreading := opens_seek hsource hsize
  obtain ⟨top, htop, hreads⟩ := h.exists_done
  rw [htop] at hreading
  have hnone := (Cursor.Reads.unique hreading hreads).2
  cases fault with
  | none => rfl
  | some e => exact absurd hnone (reading_of_fault s.combiner records e)

end Passes

end Rollup

/-! ### Rollups over sieves -/

namespace Stack

/-- Whatever was called, failing calls included, a rollup over sieves has counted each record that it took
in one of two forms, no more groups than records, and the calls that left a record in view. A pass to the
end that follows counts the records that all sieves accept in the widened range and the families, their
forms, their series and the records that it returns. -/
theorem counts_add_up {configs : List Filter.Config} {sieves : List Layer}
    (hsieves : configs.mapM Filter.Config.layer = .ok sieves) (data : OrderedMap Key Bytes)
    (combiner : Option Combiner) (calls : List Cursor.Call) :
    let start := Rollup.ofSource combiner (ofData data sieves)
    let s := Cursor.after start calls
    s.stats.input = s.stats.raw + s.stats.aggregated ∧ s.stats.groups ≤ s.stats.input ∧
    s.stats.output = (Cursor.sights start calls).countP (·.2.isSome) ∧
    ∀ (range : Range) (projection : Projection) (out : List Record) (last : Rollup (Stack sieves)),
      Cursor.Scans (Cursor.seek range projection s) out last →
      let accepted := (Store.within data range.widened projection).filter fun record =>
        configs.all (·.accepts record.1)
      last.stats.input = s.stats.input + accepted.length ∧
      last.stats.raw = s.stats.raw + accepted.countP (·.1.parts.isRaw) ∧
      last.stats.aggregated = s.stats.aggregated + accepted.countP (!·.1.parts.isRaw) ∧
      last.stats.groups = s.stats.groups + (accepted.map (·.1.series)).dedup.length ∧
      last.stats.output = s.stats.output + out.length := by
  intro start s
  have hvalid := Layer.isValid_of_mapM hsieves
  have hlayers : ∀ layer ∈ Layer.rollup combiner :: sieves, layer.IsValid :=
    List.forall_mem_cons.2 ⟨trivial, hvalid⟩
  have hclimbs : Rollup.Climbs (Climbs sieves) (rank sieves) s :=
    (climbing hlayers).after (climbs_ofData data hlayers) calls
  have hover : IsOver data sieves s.source :=
    ((Rollup.kept (kept_isOver data sieves) combiner).after (s := start)
      ⟨isOver_ofData data sieves, rfl⟩ calls).1
  obtain ⟨groups, taken, hgroups, hstats⟩ := Rollup.counted_after start calls
  have hstart : s.stats = .gain groups taken ((Cursor.sights start calls).countP (·.2.isSome)) :=
    hstats.trans (Rollup.Stats.zero_add _)
  refine ⟨?_, ?_, ?_, fun range projection out last hscans => ?_⟩
  · rw [hstart]
    exact Rollup.Stats.input_gain _ _ _
  · rw [hstart]
    exact hgroups
  · rw [hstart]
    rfl
  · obtain ⟨records, fault, hopens, hlength⟩ :=
      (climbing hvalid).exists_opens hclimbs.source range.widened projection
    obtain rfl := Rollup.fault_eq_none_of_opens hopens hlength hscans.opens
    have hserves := (serves data hsieves).shows hover range.widened projection
    obtain ⟨source, hsource, hreads⟩ := hopens.exists_done
    rw [hsource] at hserves
    obtain rfl := hserves.eq_of_reads hreads
    have hrecords := Cursor.content_ascending data (fun key => configs.all (·.accepts key)) range.widened
      projection
    intro accepted
    rw [Rollup.stats_of_scans hrecords hopens hlength hscans]
    have hgroups : (seriesIn accepted).length = (accepted.map (·.1.series)).dedup.length :=
      Rollup.length_seriesIn accepted
    exact ⟨rfl, rfl, rfl, congrArg (s.stats.groups + ·) hgroups, rfl⟩

theorem counts_add_up_days : ∃ sieves, [Sieve.year].mapM Filter.Config.layer = .ok sieves ∧
    let start := Rollup.ofSource none (ofData days sieves)
    let s := Cursor.after start [.advance, .seek .all .everything, .advance]
    ∃ out last, Cursor.Scans (Cursor.seek .all .everything s) out last ∧
      let accepted := (Store.within days .all .everything).filter fun record =>
        [Sieve.year].all (·.accepts record.1)
      last.stats.input = s.stats.input + accepted.length ∧
      last.stats.raw = s.stats.raw + accepted.countP (·.1.parts.isRaw) ∧
      last.stats.aggregated = s.stats.aggregated + accepted.countP (!·.1.parts.isRaw) ∧
      last.stats.groups = s.stats.groups + (accepted.map (·.1.series)).dedup.length ∧
      last.stats.output = s.stats.output + out.length := by
  have hsieves : [Sieve.year].mapM Filter.Config.layer = .ok [.sieve Sieve.yearFilter 0] := by
    rw [List.mapM_cons, Filter.Config.layer, Sieve.ofConfig_year]
    rfl
  have hvalid : ∀ layer ∈ yearly, layer.IsValid :=
    List.forall_mem_cons.2 ⟨trivial, Layer.isValid_of_mapM hsieves⟩
  let calls : List Cursor.Call := [.advance, .seek .all .everything, .advance]
  have hclimbs := (climbing hvalid).after (climbs_ofData days hvalid) calls
  obtain ⟨out, fault, hopens, hlength⟩ := (climbing hvalid).exists_opens hclimbs .all .everything
  have hcollect := Cursor.collect_eq hopens hlength
  have hok : (Cursor.collect .all (Cursor.after (ofData days yearly) calls)).2.isOk := by
    decide +kernel
  obtain rfl : fault = none := by
    cases fault with
    | none => rfl
    | some e =>
      rw [hcollect] at hok
      cases hok
  obtain ⟨top, htop, hreads⟩ := hopens.exists_done
  obtain ⟨last, hmoves, hlast⟩ := hreads.moves_end
  obtain ⟨_, _, _, hpass⟩ := counts_add_up hsieves days none calls
  rw [← htop] at hmoves
  exact ⟨[.sieve Sieve.yearFilter 0], hsieves, out, last, ⟨hopens, hmoves, hlast⟩,
    hpass .all .everything out last ⟨hopens, hmoves, hlast⟩⟩

end Stack

end DatedCounts
