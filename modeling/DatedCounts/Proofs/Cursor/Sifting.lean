import DatedCounts.Proofs.Cursor.Sieve

/-!
# How a sieve passes over records

Over a store, a sieve goes by the records ahead of it and by nothing else. A pass over a list says at
which record a sieve settles and with which error, and from it what the sieve reads. The loop of a sieve
that is positioned or advanced, after whatever moves, comes to an end, and it follows that pass.
-/

namespace DatedCounts

namespace Sieve

/-! ### The pass over a list -/

def onward (hint : Key) (records : List Record) : List Record :=
  records.filter fun record => (compare record.1 hint).isGE

theorem length_onward_le (hint : Key) (records : List Record) :
    (onward hint records).length ≤ records.length :=
  List.length_filter_le _ _

theorem onward_cons_of_lt {hint : Key} {record : Record} {rest : List Record}
    (h : compare record.1 hint = .lt) : onward hint (record :: rest) = onward hint rest :=
  List.filter_cons_of_neg (by simp [h])

theorem onward_eq_self {hint : Key} {record : Record} {rest : List Record}
    (hascending : Ascending (record :: rest)) (h : (compare record.1 hint).isGE) :
    onward hint (record :: rest) = record :: rest := by
  rw [onward, List.filter_eq_self]
  intro other hother
  rcases List.mem_cons.1 hother with rfl | hother
  · exact h
  · have hlt := (List.pairwise_cons.1 hascending).1 other hother
    exact Std.OrientedCmp.isGE_of_isLE (Std.TransCmp.isLE_trans
      (Std.OrientedCmp.isLE_of_isGE h) (Ordering.isLE_of_eq_lt hlt))

/-- The records from the one on at which a sieve settles, and the error if it settles there because of
one. `nexts` of the last moves stepped to the next record. -/
def sift (filter : Filter) (maxNext nexts : Nat) (records : List Record) :
    List Record × Option Error :=
  match records with
  | [] => ([], none)
  | record :: rest =>
    match filter.check record.1 with
    | .error e => (record :: rest, some e)
    | .ok .accept => (record :: rest, none)
    | .ok (.reject hint) =>
      if nexts < maxNext then sift filter maxNext (nexts + 1) rest
      else sift filter maxNext 0 (onward hint rest)
termination_by records.length
decreasing_by
  · exact Nat.lt_succ_self _
  · exact Nat.lt_succ_of_le (length_onward_le _ _)

/-- The records that a sieve reads of some records, and the error that ends them. -/
def reading (filter : Filter) (maxNext nexts : Nat) (records : List Record) :
    List Record × Option Error :=
  match records with
  | [] => ([], none)
  | record :: rest =>
    match filter.check record.1 with
    | .error e => ([], some e)
    | .ok .accept => (record :: (reading filter maxNext 0 rest).1, (reading filter maxNext 0 rest).2)
    | .ok (.reject hint) =>
      if nexts < maxNext then reading filter maxNext (nexts + 1) rest
      else reading filter maxNext 0 (onward hint rest)
termination_by records.length
decreasing_by
  · exact Nat.lt_succ_self _
  · exact Nat.lt_succ_self _
  · exact Nat.lt_succ_of_le (length_onward_le _ _)

variable {filter : Filter} {maxNext : Nat}

theorem sift_sublist (filter : Filter) (maxNext nexts : Nat) (records : List Record) :
    (sift filter maxNext nexts records).1.Sublist records := by
  fun_induction sift filter maxNext nexts records with
  | case1 | case2 | case3 => exact List.Sublist.refl _
  | case4 nexts record rest hint _ _ ih => exact ih.trans (List.sublist_cons_self _ _)
  | case5 nexts record rest hint _ _ ih =>
    exact ih.trans (List.filter_sublist.trans (List.sublist_cons_self _ _))

theorem reading_sublist (filter : Filter) (maxNext nexts : Nat) (records : List Record) :
    (reading filter maxNext nexts records).1.Sublist records := by
  fun_induction reading filter maxNext nexts records with
  | case1 | case2 => exact List.nil_sublist _
  | case3 nexts record rest _ ih => exact ih.cons_cons record
  | case4 nexts record rest hint _ _ ih => exact ih.trans (List.sublist_cons_self _ _)
  | case5 nexts record rest hint _ _ ih =>
    exact ih.trans (List.filter_sublist.trans (List.sublist_cons_self _ _))

theorem check_head_sift (nexts : Nat) (records : List Record) :
    ∀ record ∈ (sift filter maxNext nexts records).1.head?,
      match (sift filter maxNext nexts records).2 with
      | none => filter.check record.1 = .ok .accept
      | some e => filter.check record.1 = .error e := by
  fun_induction sift filter maxNext nexts records with
  | case1 => simp
  | case2 _ _ _ _ hcheck | case3 _ _ _ hcheck => simpa using hcheck
  | case4 _ _ _ _ _ _ ih | case5 _ _ _ _ _ _ ih => exact ih

theorem reading_eq_sift (nexts : Nat) (records : List Record) :
    reading filter maxNext nexts records =
      match sift filter maxNext nexts records with
      | (_, some e) => ([], some e)
      | ([], none) => ([], none)
      | (record :: rest, none) =>
        (record :: (reading filter maxNext 0 rest).1, (reading filter maxNext 0 rest).2) := by
  fun_induction sift filter maxNext nexts records with
  | case1 => rw [reading]
  | case2 _ _ _ _ hcheck | case3 _ _ _ hcheck => rw [reading, hcheck]
  | case4 _ _ _ _ hcheck hnexts ih | case5 _ _ _ _ hcheck hnexts ih =>
    rw [reading, hcheck]
    simp only [hnexts, ↓reduceIte, ih]

/-! ### A sieve that follows the pass -/

variable {data : OrderedMap Key Bytes} {range : Range} {projection : Projection}

/-- A sieve over a store of which some records of the range are left. -/
structure Facing (data : OrderedMap Key Bytes) (filter : Filter) (maxNext : Nat) (range : Range)
    (projection : Projection) (ahead : List Record) (s : Sieve Store) : Prop where
  data_eq : s.source.data = data
  filter_eq : s.filter = filter
  maxNext_eq : s.maxNext = maxNext
  range_eq : s.range = range
  projection_eq : s.projection = projection
  unfinished : s.finished = false
  reads : Cursor.Reads s.source ahead none
  suffix : ahead <:+ Store.within data range projection

theorem Facing.advance {record : Record} {rest : List Record} {s : Sieve Store}
    (h : Facing data filter maxNext range projection (record :: rest) s) :
    ∃ source, Cursor.advance s.source = .done source ∧
      Facing data filter maxNext range projection rest (s.withSource source) := by
  cases h.reads with
  | @next _ source _ _ _ _ hmove hrest =>
    have hdata := (Store.kept data).advance h.data_eq
    rw [hmove] at hdata
    refine ⟨source, hmove, ?_⟩
    exact { h with
      data_eq := hdata
      reads := hrest
      suffix := (List.suffix_cons _ _).trans h.suffix }

theorem Facing.eq_nil {ahead : List Record} {s : Sieve Store}
    (h : Facing data filter maxNext range projection ahead s) (htop : Cursor.top? s.source = none) :
    ahead = [] :=
  List.head?_eq_none_iff.1 (h.reads.top?_eq.symm.trans htop)

theorem Facing.exists_cons {ahead : List Record} {s : Sieve Store} {record : Record}
    (h : Facing data filter maxNext range projection ahead s)
    (htop : Cursor.top? s.source = some record) : ∃ rest, ahead = record :: rest :=
  List.head?_eq_some_iff.1 (h.reads.top?_eq.symm.trans htop)

theorem Facing.length_lt {ahead : List Record} {s : Sieve Store}
    (h : Facing data filter maxNext range projection ahead s) :
    ahead.length < Cursor.size s.source + 1 := by
  change _ < s.source.data.size + 1
  rw [h.data_eq]
  exact Nat.lt_succ_of_le (Nat.le_trans h.suffix.length_le
    (Store.length_within_le data range projection))

theorem Facing.advance_eq {record : Record} {rest : List Record} {s : Sieve Store}
    (h : Facing data filter maxNext range projection (record :: rest) s) :
    ∃ source, Cursor.advance s.source = .done source ∧
      Cursor.advance s = settled (s.withSource source) ∧
      Facing data filter maxNext range projection rest (s.withSource source) := by
  obtain ⟨source, hmove, hnext⟩ := h.advance
  have htop : s.top? = some record := by
    rw [top?, h.unfinished]
    exact h.reads.top?_eq
  refine ⟨source, hmove, ?_, hnext⟩
  rw [advance_of_top htop, hmove]
  rfl

theorem seek_eq {s : Sieve Store} (h : s.source.data = data ∧ s.filter = filter ∧ s.maxNext = maxNext)
    (range : Range) (projection : Projection) :
    ∃ source, Cursor.seek range projection s.source = .done source ∧
      Cursor.seek range projection s = settled { s with source, range, projection, finished := false } ∧
      Facing data filter maxNext range projection (Store.within data range projection)
        { s with source, range, projection, finished := false } := by
  obtain ⟨rfl, rfl, rfl⟩ := h
  obtain ⟨source, hseek, hreads⟩ := (s.source.opens_seek range projection).exists_done
  have hdata := (Store.kept s.source.data).seek range projection rfl
  rw [hseek] at hdata
  refine ⟨source, hseek, ?_, hdata, rfl, rfl, rfl, rfl, rfl, hreads, List.suffix_refl _⟩
  change seek range projection s = _
  rw [seek]
  simp only
  rw [hseek]
  rfl

/-- A sieve that shows the first of the records that are left, of which there are none once a hint lay
past the end of the range. -/
def Stands (data : OrderedMap Key Bytes) (filter : Filter) (maxNext : Nat) (range : Range)
    (projection : Projection) (ahead : List Record) (s : Sieve Store) : Prop :=
  s.finished = true ∧ ahead = [] ∨ Facing data filter maxNext range projection ahead s

theorem Stands.top?_eq {ahead : List Record} {s : Sieve Store}
    (h : Stands data filter maxNext range projection ahead s) : Cursor.top? s = ahead.head? := by
  change s.top? = _
  rw [top?]
  rcases h with ⟨hfinished, rfl⟩ | h
  · rw [if_pos hfinished]
    rfl
  · rw [h.unfinished, h.reads.top?_eq]
    rfl

theorem Stands.mem_within {ahead : List Record} {s : Sieve Store}
    (h : Stands data filter maxNext range projection ahead s) {record : Record}
    (hrecord : record ∈ ahead) : record ∈ Store.within data range projection := by
  rcases h with ⟨_, rfl⟩ | h
  · cases hrecord
  · exact h.suffix.mem hrecord

theorem stands_ofSource (filter : Filter) (maxNext : Nat) (data : OrderedMap Key Bytes) :
    Stands data filter maxNext .all .everything [] (ofSource filter maxNext (Store.ofData data)) :=
  .inr ⟨rfl, rfl, rfl, rfl, rfl, rfl, .ended rfl, List.nil_suffix⟩

theorem Stands.fork {ahead : List Record} {s : Sieve Store}
    (h : Stands data filter maxNext range projection ahead s) :
    Stands data filter maxNext range projection ahead (Cursor.fork s) :=
  h.imp id fun hfacing => { hfacing with reads := Store.reads_fork hfacing.reads }

/-- A move of a sieve that comes to where the pass over some records does. -/
def Follows (data : OrderedMap Key Bytes) (filter : Filter) (maxNext : Nat) (range : Range)
    (projection : Projection) (left : List Record × Option Error) (move : Outcome (Sieve Store)) :
    Prop :=
  Stands data filter maxNext range projection left.1 move.state ∧ move.error? = left.2

theorem onward_suffix {record : Record} {rest : List Record} {hint : Key}
    (hsuffix : (record :: rest) <:+ Store.within data range projection)
    (habove : compare record.1 hint = .lt) :
    Store.within data (range.resumeAt hint) projection = onward hint rest ∧
      onward hint rest <:+ Store.within data range projection := by
  rw [← Cursor.content_true data range projection] at hsuffix
  obtain ⟨hcontent, hends, _⟩ := content_resumeAt hsuffix habove
  rw [Cursor.content_true] at hcontent hends
  exact ⟨hcontent, hends⟩

theorem Facing.jump {record : Record} {rest : List Record} {hint : Key} {s : Sieve Store}
    (h : Facing data filter maxNext range projection (record :: rest) s)
    (habove : compare record.1 hint = .lt) :
    ∃ source, Cursor.seek (s.range.resumeAt hint) s.projection s.source = .done source ∧
      Facing data filter maxNext range projection (onward hint rest) (s.withSource source) := by
  obtain ⟨hwithin, hsuffix⟩ := onward_suffix h.suffix habove
  have hdata := h.data_eq
  subst hdata
  rw [h.range_eq, h.projection_eq]
  obtain ⟨source, hseek, hreads⟩ :=
    (s.source.opens_seek (range.resumeAt hint) projection).exists_done
  have hsame := (Store.kept s.source.data).seek (range.resumeAt hint) projection rfl
  rw [hseek] at hsame
  refine ⟨source, hseek, ?_⟩
  exact { h with
    data_eq := hsame
    reads := hwithin ▸ hreads
    suffix := hsuffix }

theorem onward_eq_nil {record : Record} {rest : List Record} {hint : Key}
    (hsuffix : (record :: rest) <:+ Store.within data range projection)
    (hend : ¬ range.beforeEnd hint) : onward hint rest = [] := by
  rw [onward, List.filter_eq_nil_iff]
  intro r hr hge
  have hcontains := (Store.mem_within.1 (hsuffix.mem (List.mem_cons_of_mem _ hr))).2.1
  rw [Range.contains, Bool.and_eq_true] at hcontains
  exact hend (Range.beforeEnd_of_isLE (Std.OrientedCmp.isLE_of_isGE hge) hcontains.2)

/-! ### The loop of a sieve -/

/-- The runs of the loop of a sieve over a store, with no bound on its turns. `nexts` of the last moves
stepped to the next record. -/
inductive Runs : (nexts : Nat) → Sieve Store → Outcome (Sieve Store) → Prop
  | ended {nexts : Nat} {s : Sieve Store} (htop : Cursor.top? s.source = none) :
      Runs nexts s (.done s)
  | refused {nexts : Nat} {s : Sieve Store} {record : Record} {e : Error}
      (htop : Cursor.top? s.source = some record) (hcheck : s.filter.check record.1 = .error e) :
      Runs nexts s (.failed e s)
  | accepted {nexts : Nat} {s : Sieve Store} {record : Record}
      (htop : Cursor.top? s.source = some record) (hcheck : s.filter.check record.1 = .ok .accept) :
      Runs nexts s (.done { s with stats.accepted := s.stats.accepted + 1 })
  | stepped {nexts : Nat} {s : Sieve Store} {record : Record} {hint : Key} {source : Store}
      {out : Outcome (Sieve Store)} (htop : Cursor.top? s.source = some record)
      (hcheck : s.filter.check record.1 = .ok (.reject hint)) (hnexts : nexts < s.maxNext)
      (hmove : Cursor.advance s.source = .done source)
      (hrest : Runs (nexts + 1) { s with
        source
        stats.rejected := s.stats.rejected + 1
        stats.nexts := s.stats.nexts + 1 } out) : Runs nexts s out
  | jumped {nexts : Nat} {s : Sieve Store} {record : Record} {hint : Key} {source : Store}
      {out : Outcome (Sieve Store)} (htop : Cursor.top? s.source = some record)
      (hcheck : s.filter.check record.1 = .ok (.reject hint)) (hnexts : ¬ nexts < s.maxNext)
      (hend : s.range.beforeEnd hint)
      (hmove : Cursor.seek (s.range.resumeAt hint) s.projection s.source = .done source)
      (hrest : Runs 0 { s with
        source
        stats.rejected := s.stats.rejected + 1
        stats.seeks := s.stats.seeks + 1 } out) : Runs nexts s out
  | finished {nexts : Nat} {s : Sieve Store} {record : Record} {hint : Key}
      (htop : Cursor.top? s.source = some record)
      (hcheck : s.filter.check record.1 = .ok (.reject hint)) (hnexts : ¬ nexts < s.maxNext)
      (hend : ¬ s.range.beforeEnd hint) :
      Runs nexts s (.done { s with finished := true, stats.rejected := s.stats.rejected + 1 })

section Moves

variable (hnul : ∀ accepted ∈ filter.datatypes.toList, Qualifier.separator ∉ accepted)
include hnul

theorem settle_runs (steps nexts : Nat) {ahead : List Record} {s : Sieve Store}
    (h : Facing data filter maxNext range projection ahead s) (hsteps : ahead.length < steps) :
    Runs nexts s (settle steps nexts s) := by
  induction steps generalizing nexts ahead s with
  | zero => cases hsteps
  | succ steps ih =>
    have htop := h.reads.top?_eq
    cases ahead with
    | nil =>
      rw [settle, htop]
      exact .ended htop
    | cons record rest =>
      rw [settle, htop]
      simp only [List.head?_cons]
      cases hcheck : s.filter.check record.1 with
      | error e => exact .refused htop hcheck
      | ok decision =>
        cases decision with
        | accept => exact .accepted htop hcheck
        | reject hint =>
          have hshorter := Nat.lt_of_succ_lt_succ hsteps
          simp only
          by_cases hnexts : nexts < s.maxNext
          · rw [if_pos hnexts]
            obtain ⟨source, hmove, hnext⟩ := h.advance
            rw [hmove]
            exact .stepped htop hcheck hnexts hmove (ih (nexts + 1) { hnext with } hshorter)
          · rw [if_neg hnexts]
            have habove := (Filter.skips_of_reject hnul (h.filter_eq ▸ hcheck)).above
            by_cases hend : s.range.beforeEnd hint
            · rw [if_pos hend]
              obtain ⟨source, hseek, hnext⟩ := h.jump habove
              rw [hseek]
              exact .jumped htop hcheck hnexts hend hseek
                (ih 0 { hnext with } (Nat.lt_of_le_of_lt (length_onward_le _ _) hshorter))
            · rw [if_neg hend]
              exact .finished htop hcheck hnexts hend

theorem settled_runs {ahead : List Record} {s : Sieve Store}
    (h : Facing data filter maxNext range projection ahead s) : Runs 0 s (settled s) :=
  settle_runs hnul _ 0 h h.length_lt

/-- A run of the loop settles where the pass does. -/
theorem Runs.follows {nexts : Nat} {s : Sieve Store} {move : Outcome (Sieve Store)}
    (h : Runs nexts s move) {ahead : List Record}
    (hfacing : Facing data filter maxNext range projection ahead s) :
    Follows data filter maxNext range projection (sift filter maxNext nexts ahead) move := by
  induction h generalizing ahead with
  | ended htop =>
    obtain rfl := hfacing.eq_nil htop
    rw [sift]
    exact ⟨.inr hfacing, rfl⟩
  | refused htop hcheck =>
    obtain ⟨rest, rfl⟩ := hfacing.exists_cons htop
    rw [hfacing.filter_eq] at hcheck
    rw [sift, hcheck]
    exact ⟨.inr hfacing, rfl⟩
  | accepted htop hcheck =>
    obtain ⟨rest, rfl⟩ := hfacing.exists_cons htop
    rw [hfacing.filter_eq] at hcheck
    rw [sift, hcheck]
    exact ⟨.inr { hfacing with }, rfl⟩
  | stepped htop hcheck hnexts hmove _ ih =>
    obtain ⟨rest, rfl⟩ := hfacing.exists_cons htop
    obtain ⟨source, hsource, hnext⟩ := hfacing.advance
    cases hmove.symm.trans hsource
    rw [hfacing.filter_eq] at hcheck
    rw [sift, hcheck]
    simp only [if_pos (hfacing.maxNext_eq ▸ hnexts)]
    exact ih { hnext with }
  | jumped htop hcheck hnexts hend hmove _ ih =>
    obtain ⟨rest, rfl⟩ := hfacing.exists_cons htop
    rw [hfacing.filter_eq] at hcheck
    obtain ⟨source, hsource, hnext⟩ := hfacing.jump (Filter.skips_of_reject hnul hcheck).above
    cases hmove.symm.trans hsource
    rw [sift, hcheck]
    simp only [if_neg (hfacing.maxNext_eq ▸ hnexts)]
    exact ih { hnext with }
  | finished htop hcheck hnexts hend =>
    obtain ⟨rest, rfl⟩ := hfacing.exists_cons htop
    rw [hfacing.filter_eq] at hcheck
    rw [sift, hcheck]
    -- Past the end of the range nothing is left, which the sieve marks instead of seeking.
    simp only [if_neg (hfacing.maxNext_eq ▸ hnexts),
      onward_eq_nil hfacing.suffix (hfacing.range_eq ▸ hend), sift]
    exact ⟨.inl ⟨rfl, rfl⟩, rfl⟩

theorem settled_follows {ahead : List Record} {s : Sieve Store}
    (h : Facing data filter maxNext range projection ahead s) :
    Follows data filter maxNext range projection (sift filter maxNext 0 ahead) (settled s) :=
  (settled_runs hnul h).follows hnul h

theorem seek_follows {s : Sieve Store}
    (h : s.source.data = data ∧ s.filter = filter ∧ s.maxNext = maxNext) (range : Range)
    (projection : Projection) :
    Follows data filter maxNext range projection
      (sift filter maxNext 0 (Store.within data range projection)) (Cursor.seek range projection s) := by
  obtain ⟨source, _, hseek, hfacing⟩ := seek_eq h range projection
  rw [hseek]
  exact settled_follows hnul hfacing

theorem advance_follows {record : Record} {rest : List Record} {s : Sieve Store}
    (h : Stands data filter maxNext range projection (record :: rest) s) :
    Follows data filter maxNext range projection (sift filter maxNext 0 rest) (Cursor.advance s) := by
  rcases h with ⟨_, hnone⟩ | h
  · cases hnone
  · obtain ⟨source, _, hadvance, hnext⟩ := h.advance_eq
    rw [hadvance]
    exact settled_follows hnul hnext

theorem Follows.opens {records : List Record} {move : Outcome (Sieve Store)}
    (h : Follows data filter maxNext range projection (sift filter maxNext 0 records) move) :
    Cursor.Opens move (reading filter maxNext 0 records).1 (reading filter maxNext 0 records).2 := by
  induction hn : records.length using Nat.strongRecOn generalizing records move with
  | ind n ih =>
    obtain ⟨hstands, herror⟩ := h
    have hsublist := sift_sublist filter maxNext 0 records
    rw [reading_eq_sift]
    revert hstands herror hsublist
    cases sift filter maxNext 0 records with
    | mk left fault =>
      intro hstands herror hsublist
      cases move with
      | failed e s =>
        cases herror
        exact ⟨rfl, rfl⟩
      | done s =>
        cases herror
        have htop := hstands.top?_eq
        cases left with
        | nil => exact .ended htop
        | cons record rest =>
          have hnext := ih rest.length (hn ▸ hsublist.length_le) (advance_follows hnul hstands) rfl
          exact hnext.cons htop

/-- A sieve reads what the pass over the records of the range and the families does. -/
theorem opens_seek {s : Sieve Store}
    (h : s.source.data = data ∧ s.filter = filter ∧ s.maxNext = maxNext) (range : Range)
    (projection : Projection) :
    let read := reading filter maxNext 0 (Store.within data range projection)
    Cursor.Opens (Cursor.seek range projection s) read.1 read.2 :=
  (seek_follows hnul h range projection).opens hnul

end Moves

end Sieve

end DatedCounts
