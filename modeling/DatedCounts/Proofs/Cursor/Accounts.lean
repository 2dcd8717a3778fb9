import DatedCounts.Proofs.Cursor.Climbing
import DatedCounts.Proofs.Cursor.Exposure

/-!
# What a scan costs

The loop in which a sieve passes over rejected records comes to an end, and a sieve accounts for each
record of the range and the families at most once. What the store below has looked at, together with what
it will look at if it is advanced to its end, is left as it is by an advance, and is not raised by a jump:
a scan of a sieve looks at no more than a scan of the store alone.
-/

namespace DatedCounts

/-- A scan from a first move on: the records that are read, none of the moves failing, and the state at
their end. -/
structure Cursor.Scans {σ : Type} [Cursor σ] (first : Outcome σ) (records : List Record) (last : σ) :
    Prop where
  opens : Opens first records none
  moves_eq : moves first records.length = .done last
  top?_eq : top? last = none

/-! ### What a store looks at -/

namespace Store

/-- How many of some records a store looks at to pass over all of them that it shows: those up to the end
of the range, and the first one past it. -/
def looks (range : Range) : List Record → Nat
  | [] => 0
  | record :: rest => if range.beforeEnd record.1 then looks range rest + 1 else 1

theorem looks_eq_of_stop_eq {range range' : Range} (h : range.stop = range'.stop)
    (records : List Record) : looks range records = looks range' records := by
  induction records with
  | nil => rfl
  | cons record rest ih => rw [looks, looks, ih, Range.beforeEnd, Range.beforeEnd, h]

theorem settle_add_looks (range : Range) (projection : Projection) (records : List Record) :
    (settle range projection records).2 + looks range (settle range projection records).1.tail =
      looks range records := by
  induction records with
  | nil => rfl
  | cons record rest ih =>
    rw [settle, looks]
    by_cases hend : range.beforeEnd record.1
    · by_cases hallowed : projection.allows record.1.family
      · simp [hend, hallowed, Nat.add_comm]
      · simp only [hend, hallowed, Bool.not_true, Bool.false_eq_true, ↓reduceIte]
        omega
    · simp [hend, looks]

theorem looks_cons_le {range : Range} {record : Record} {rest : List Record}
    (hascending : Ascending (record :: rest)) : looks range rest ≤ looks range (record :: rest) := by
  rw [looks]
  split
  · exact Nat.le_succ _
  · next hend =>
    cases rest with
    | nil => exact Nat.zero_le _
    | cons later rest =>
      have hlt := (List.pairwise_cons.1 hascending).1 later List.mem_cons_self
      have hpast : ¬ range.beforeEnd later.1 := fun hlater =>
        hend (Range.beforeEnd_of_isLE (Ordering.isLE_of_eq_lt hlt) hlater)
      rw [looks, if_neg hpast]

theorem looks_le_of_suffix {range : Range} {left records : List Record}
    (hascending : Ascending records) (h : left <:+ records) :
    looks range left ≤ looks range records := by
  induction records with
  | nil => rw [List.suffix_nil.1 h]
  | cons record rest ih =>
    rcases List.suffix_cons_iff.1 h with rfl | hrest
    · exact Nat.le_refl _
    · exact Nat.le_trans (ih hascending.of_cons hrest) (looks_cons_le hascending)

/-- The visits of a store together with those that it takes to advance it to the end. -/
def due (s : Store) : Nat := s.stats.visits + looks s.range s.ahead.tail

theorem due_moveTo (s : Store) (records : List Record) :
    (s.moveTo records).due = s.stats.visits + looks s.range records := by
  rw [← settle_add_looks s.range s.projection records, ← Nat.add_assoc]
  rfl

theorem advance_of_top {s : Store} {record : Record} (h : Cursor.top? s = some record) :
    Cursor.advance s = .done (s.moveTo s.ahead.tail) := by
  obtain ⟨rest, hahead⟩ := List.head?_eq_some_iff.1 h
  rw [advance_of_cons hahead, hahead, List.tail_cons]

/-- An advance of a store that shows a record keeps the sum of what it has looked at and will look at. -/
theorem due_advance {s s' : Store} {record : Record} (htop : Cursor.top? s = some record)
    (h : Cursor.advance s = .done s') : s'.due = s.due := by
  rw [advance_of_top htop] at h
  cases h
  exact due_moveTo s _

theorem due_seek (range : Range) (projection : Projection) (s : Store) :
    (s.seek range projection).due =
      s.stats.visits + looks range (s.data.toList.dropWhile fun record => !range.afterStart record.1) :=
  due_moveTo { s with range, projection, stats.seeks := s.stats.seeks + 1 } _

/-- A jump from a record to a hint above it does not raise that sum. -/
theorem due_jump {s : Store} {record : Record} (hahead : s.ahead <:+ s.data.toList)
    (htop : Cursor.top? s = some record) {hint : Key} (habove : compare record.1 hint = .lt)
    {range : Range} (hstop : s.range.stop = range.stop) (projection : Projection) :
    (s.seek (range.resumeAt hint) projection).due ≤ s.due := by
  obtain ⟨rest, hcons⟩ := List.head?_eq_some_iff.1 htop
  have hrest : rest <:+ s.data.toList := (List.suffix_cons _ _).trans (hcons ▸ hahead)
  -- The record lies below the hint, so what the store jumps to is among the records after it.
  have hbehind : (s.data.toList.dropWhile fun later => !(range.resumeAt hint).afterStart later.1) <:+
      rest := by
    refine suffix_of_notMem (List.dropWhile_suffix _) (hcons ▸ hahead) fun hmem => ?_
    have hafter : (compare record.1 hint).isGE := by
      rw [dropWhile_afterStart] at hmem
      exact (List.mem_filter.1 hmem).2
    rw [habove] at hafter
    cases hafter
  rw [due_seek, due, hcons, List.tail_cons,
    looks_eq_of_stop_eq (show (range.resumeAt hint).stop = s.range.stop from hstop.symm)]
  exact Nat.add_le_add_left (looks_le_of_suffix (s.data.ascending.sublist hrest.sublist) hbehind) _

theorem visits_of_reads {s : Store} {records : List Record} (h : Cursor.Reads s records none) :
    ∃ last, Cursor.moves (.done s) records.length = .done last ∧ Cursor.top? last = none ∧
      last.stats.visits = s.due := by
  obtain ⟨last, hmoves, hlast, hdue⟩ := h.moves_end_of (P := fun _ later => later.due = s.due)
    (fun hs htop hmove => (due_advance htop hmove).trans hs) (n := 0) rfl
  refine ⟨last, hmoves, hlast, ?_⟩
  rw [← hdue, due, List.head?_eq_none_iff.1 hlast]
  rfl

end Store

namespace Sieve

/-! ### The end of the loop -/

/-- Whether the loops of all moves of a sieve come to an end, which is then that of the move. -/
structure LoopsEnd (s : Sieve Store) : Prop where
  seek (range : Range) (projection : Projection) : ∃ source,
    Cursor.seek range projection s.source = .done source ∧
      Runs 0 { s with source, range, projection, finished := false }
        (Cursor.seek range projection s)
  advance {record : Record} (htop : Cursor.top? s = some record) : ∃ source,
    Cursor.advance s.source = .done source ∧ Runs 0 (s.withSource source) (Cursor.advance s)

variable {data : OrderedMap Key Bytes} {filter : Filter} {maxNext : Nat} {range : Range}
  {projection : Projection}

/-- The loops of a sieve over a store come to an end, whatever was done with it before. -/
theorem loopsEnd_of_reached
    (hnul : ∀ accepted ∈ filter.datatypes.toList, Qualifier.separator ∉ accepted)
    {last : Option (Range × Projection)} {fault : Option Error} {s : Sieve Store}
    (h : Cursor.Reached (ofSource filter maxNext (Store.ofData data)) last fault s) :
    LoopsEnd s where
  seek range projection := by
    have hover := h.keeps (kept (Store.kept data) filter maxNext) ⟨rfl, rfl, rfl⟩
    obtain ⟨source, hmove, hseek, hfacing⟩ := seek_eq hover range projection
    rw [hseek]
    exact ⟨source, hmove, settled_runs hnul hfacing⟩
  advance {record} htop := by
    obtain ⟨range, projection, ahead, hstands, _⟩ := exposes_of_reached hnul h
    obtain ⟨rest, rfl⟩ := List.head?_eq_some_iff.1 (hstands.top?_eq.symm.trans htop)
    rcases hstands with ⟨_, hnone⟩ | hfacing
    · cases hnone
    · obtain ⟨source, hmove, hadvance, hnext⟩ := hfacing.advance_eq
      rw [hadvance]
      exact ⟨source, hmove, settled_runs hnul hnext⟩

/-! ### What a sieve counts -/

/-- The counters of a sieve over a store, with some records left to judge out of a number of them, and a
number of visits of the store that are allowed. -/
structure Balanced (present visits : Nat) (left : List Record) (s : Sieve Store) : Prop where
  judged_le : s.stats.accepted + s.stats.rejected + left.length ≤ present
  rejected_eq : s.stats.rejected = s.stats.nexts + s.stats.seeks
  seeks_eq : s.source.stats.seeks = s.stats.seeks + 1
  stop_eq : s.source.range.stop = s.range.stop
  suffix : s.source.ahead <:+ s.source.data.toList
  due_le : s.source.due ≤ visits

/-- The counters of a sieve over a store at the end of a scan: of the records that it returned, of those
that are present in the range and the families, and of the visits of a scan of the store alone. -/
structure Accounts (filter : Filter) (range : Range) (returned present visits : Nat) (s : Sieve Store) :
    Prop where
  accepted_eq : s.stats.accepted = returned
  judged_le : s.stats.accepted + s.stats.rejected ≤ present
  rejected_eq : s.stats.rejected = s.stats.nexts + s.stats.seeks + if s.finished then 1 else 0
  /-- The one rejection that no move follows is that of a hint past the end of the range. -/
  finished_iff : s.finished ↔ ∃ record hint, Cursor.top? s.source = some record ∧
    filter.check record.1 = .ok (.reject hint) ∧ ¬ range.beforeEnd hint
  seeks_eq : s.source.stats.seeks = s.stats.seeks + 1
  visits_le : s.source.stats.visits ≤ visits

/-- A sieve at a record that it accepts, after a number of others, or at the end. -/
def Landed (data : OrderedMap Key Bytes) (filter : Filter) (maxNext : Nat) (range : Range)
    (projection : Projection) (returned present visits : Nat) (s : Sieve Store) : Prop :=
  (∃ record rest, Facing data filter maxNext range projection (record :: rest) s ∧
    Balanced present visits rest s ∧ s.stats.accepted = returned + 1) ∨
  Cursor.top? s = none ∧ Accounts filter range returned present visits s

variable {present visits : Nat}

section Balance

variable {left rest : List Record} {record : Record} {hint : Key} {source : Store} {s : Sieve Store}

theorem Balanced.advance (h : Balanced present visits left s)
    (htop : Cursor.top? s.source = some record) (hmove : Cursor.advance s.source = .done source) :
    Balanced present visits left (s.withSource source) := by
  have hdue := Store.due_advance htop hmove
  rw [Store.advance_of_top htop] at hmove
  cases hmove
  exact { h with
    suffix := (Store.settle_suffix _ _ _).trans ((List.tail_suffix _).trans h.suffix)
    due_le := hdue ▸ h.due_le }

theorem Balanced.accept (h : Balanced present visits (record :: rest) s) :
    Balanced present visits rest { s with stats.accepted := s.stats.accepted + 1 } := by
  have hjudged := h.judged_le
  rw [List.length_cons] at hjudged
  have hcounted : s.stats.accepted + 1 + s.stats.rejected + rest.length ≤ present := by omega
  exact { h with judged_le := hcounted }

theorem Balanced.step (h : Balanced present visits (record :: rest) s)
    (htop : Cursor.top? s.source = some record) (hmove : Cursor.advance s.source = .done source) :
    Balanced present visits rest { s with
      source
      stats.rejected := s.stats.rejected + 1
      stats.nexts := s.stats.nexts + 1 } := by
  have hjudged := h.judged_le
  rw [List.length_cons] at hjudged
  have hcounted : s.stats.accepted + (s.stats.rejected + 1) + rest.length ≤ present := by omega
  have hrejected : s.stats.rejected + 1 = s.stats.nexts + 1 + s.stats.seeks := by
    rw [h.rejected_eq, Nat.add_right_comm]
  exact { h.advance htop hmove with judged_le := hcounted, rejected_eq := hrejected }

theorem Balanced.jump (h : Balanced present visits (record :: rest) s)
    (htop : Cursor.top? s.source = some record) (habove : compare record.1 hint = .lt)
    (hmove : Cursor.seek (s.range.resumeAt hint) s.projection s.source = .done source) :
    Balanced present visits (onward hint rest) { s with
      source
      stats.rejected := s.stats.rejected + 1
      stats.seeks := s.stats.seeks + 1 } := by
  have hjudged := h.judged_le
  have hlength := length_onward_le hint rest
  have hdue := Store.due_jump h.suffix htop habove h.stop_eq s.projection
  rw [List.length_cons] at hjudged
  have hcounted : s.stats.accepted + (s.stats.rejected + 1) + (onward hint rest).length ≤ present := by
    omega
  cases hmove
  exact {
    judged_le := hcounted
    rejected_eq := congrArg Nat.succ h.rejected_eq
    seeks_eq := congrArg Nat.succ h.seeks_eq
    stop_eq := rfl
    suffix := (Store.settle_suffix _ _ _).trans (List.dropWhile_suffix _)
    due_le := Nat.le_trans hdue h.due_le }

theorem Balanced.visits_le (h : Balanced present visits left s) : s.source.stats.visits ≤ visits :=
  Nat.le_trans (Nat.le_add_right _ _) h.due_le

theorem Balanced.accounts (h : Balanced present visits left s) (hunfinished : s.finished = false)
    (htop : Cursor.top? s.source = none) :
    Accounts filter range s.stats.accepted present visits s where
  accepted_eq := rfl
  judged_le := Nat.le_trans (Nat.le_add_right _ _) h.judged_le
  rejected_eq := by simpa [hunfinished] using h.rejected_eq
  finished_iff := by simp [hunfinished, htop]
  seeks_eq := h.seeks_eq
  visits_le := h.visits_le

theorem Balanced.finish (h : Balanced present visits (record :: rest) s)
    (htop : Cursor.top? s.source = some record) (hcheck : filter.check record.1 = .ok (.reject hint))
    (hend : ¬ range.beforeEnd hint) :
    Accounts filter range s.stats.accepted present visits
      { s with finished := true, stats.rejected := s.stats.rejected + 1 } where
  accepted_eq := rfl
  judged_le := by
    have hjudged := h.judged_le
    rw [List.length_cons] at hjudged
    simp only
    omega
  rejected_eq := congrArg Nat.succ h.rejected_eq
  finished_iff := iff_of_true rfl ⟨record, hint, htop, hcheck, hend⟩
  seeks_eq := h.seeks_eq
  visits_le := h.visits_le

end Balance

/-- A run of the loop over raw records, from a sieve whose counters are balanced, does not fail, and its
counters are balanced where it lands. -/
theorem Runs.landed (hnul : ∀ accepted ∈ filter.datatypes.toList, Qualifier.separator ∉ accepted)
    (hraw : Cursor.RawWithin data range projection) {nexts : Nat} {s : Sieve Store}
    {move : Outcome (Sieve Store)} (h : Runs nexts s move) {ahead : List Record}
    (hfacing : Facing data filter maxNext range projection ahead s)
    (hbalanced : Balanced present visits ahead s) :
    ∃ s', move = .done s' ∧
      Landed data filter maxNext range projection s.stats.accepted present visits s' := by
  induction h generalizing ahead with
  | ended htop =>
    obtain rfl := hfacing.eq_nil htop
    exact ⟨_, rfl, .inr ⟨Stands.top?_eq (.inr hfacing), hbalanced.accounts hfacing.unfinished htop⟩⟩
  | @refused _ _ record e htop hcheck =>
    -- Only a key that is not that of a raw record is refused.
    obtain ⟨rest, rfl⟩ := hfacing.exists_cons htop
    have hrecord := hraw record (hfacing.suffix.mem List.mem_cons_self)
    rw [(Filter.check_eq_error_iff.1 hcheck).1] at hrecord
    cases hrecord
  | accepted htop hcheck =>
    obtain ⟨rest, rfl⟩ := hfacing.exists_cons htop
    exact ⟨_, rfl, .inl ⟨_, rest, { hfacing with }, hbalanced.accept, rfl⟩⟩
  | stepped htop hcheck hnexts hmove _ ih =>
    obtain ⟨rest, rfl⟩ := hfacing.exists_cons htop
    obtain ⟨source, hsource, hnext⟩ := hfacing.advance
    cases hmove.symm.trans hsource
    exact ih { hnext with } (hbalanced.step htop hmove)
  | jumped htop hcheck hnexts hend hmove _ ih =>
    obtain ⟨rest, rfl⟩ := hfacing.exists_cons htop
    have habove := (Filter.skips_of_reject hnul (hfacing.filter_eq ▸ hcheck)).above
    obtain ⟨source, hsource, hnext⟩ := hfacing.jump habove
    cases hmove.symm.trans hsource
    exact ih { hnext with } (hbalanced.jump htop habove hmove)
  | finished htop hcheck hnexts hend =>
    obtain ⟨rest, rfl⟩ := hfacing.exists_cons htop
    rw [hfacing.filter_eq] at hcheck
    rw [hfacing.range_eq] at hend
    exact ⟨_, rfl, .inr ⟨rfl, hbalanced.finish htop hcheck hend⟩⟩

theorem Landed.accounts {returned : Nat} {s : Sieve Store}
    (h : Landed data filter maxNext range projection returned present visits s)
    (htop : Cursor.top? s = none) : Accounts filter range returned present visits s := by
  rcases h with ⟨record, rest, hfacing, _⟩ | ⟨_, haccounts⟩
  · have hshown : Cursor.top? s = some record := Stands.top?_eq (.inr hfacing)
    rw [htop] at hshown
    cases hshown
  · exact haccounts

theorem Landed.next (hnul : ∀ accepted ∈ filter.datatypes.toList, Qualifier.separator ∉ accepted)
    (hraw : Cursor.RawWithin data range projection) {returned : Nat} {s s' : Sieve Store}
    {record : Record} (h : Landed data filter maxNext range projection returned present visits s)
    (htop : Cursor.top? s = some record) (hmove : Cursor.advance s = .done s') :
    Landed data filter maxNext range projection (returned + 1) present visits s' := by
  rcases h with ⟨first, rest, hfacing, hbalanced, haccepted⟩ | ⟨hnone, _⟩
  · obtain ⟨source, hsource, hadvance, hnext⟩ := hfacing.advance_eq
    obtain ⟨later, hsettled, hlanded⟩ := (settled_runs hnul hnext).landed hnul hraw hnext
      (hbalanced.advance hfacing.reads.top?_eq hsource)
    rw [← hadvance, hmove] at hsettled
    cases hsettled
    rwa [show (s.withSource source).stats.accepted = returned + 1 from haccepted] at hlanded
  · rw [htop] at hnone
    cases hnone

/-- The loops of a sieve end. At the end of a scan of raw records that starts afresh, the accepted ones are
those that were returned, no record of the range and the families was judged twice, each rejection but one
of a hint past the end of the range made for one move of the store, and the store looked at no more
records than it does alone. -/
theorem scan_accounts {config : Filter.Config} (hfilter : Filter.ofConfig config = .ok filter)
    (hraw : Cursor.RawWithin data range projection) :
    (∀ last fault s, Cursor.Reached (ofSource filter config.maxNext (Store.ofData data)) last fault s →
      LoopsEnd s) ∧
    ∃ out last alone plain,
      Cursor.Scans (Cursor.seek range projection (ofSource filter config.maxNext (Store.ofData data)))
        out last ∧
      Cursor.Scans (Cursor.seek range projection (Store.ofData data)) alone plain ∧
      Accounts filter range out.length (Store.within data range projection).length plain.stats.visits
        last := by
  have hnul := Filter.separator_notMem_of_mem hfilter
  refine ⟨fun last fault s h => loopsEnd_of_reached hnul h, ?_⟩
  have halone := (Store.ofData data).opens_seek range projection
  obtain ⟨plain, hplain, hplainEnd, hvisits⟩ := Store.visits_of_reads halone
  have hfresh : (ofSource filter config.maxNext (Store.ofData data)).source.data = data ∧
      filter = filter ∧ config.maxNext = config.maxNext := ⟨rfl, rfl, rfl⟩
  have hopens := (serves (Store.serves data) hnul config.maxNext).opens hfresh hraw
  obtain ⟨source, hsource, hseek, hfacing⟩ := seek_eq hfresh range projection
  have hbalanced : Balanced (Store.within data range projection).length plain.stats.visits
      (Store.within data range projection) { ofSource filter config.maxNext (Store.ofData data) with
        source, range, projection, finished := false } := by
    cases hsource
    exact {
      judged_le := by simp [ofSource]
      rejected_eq := rfl
      seeks_eq := rfl
      stop_eq := rfl
      suffix := (Store.settle_suffix _ _ _).trans (List.dropWhile_suffix _)
      due_le := Nat.le_of_eq hvisits.symm }
  obtain ⟨first, hfirst, hlanded⟩ := (settled_runs hnul hfacing).landed hnul hraw hfacing hbalanced
  rw [← hseek] at hfirst
  have hreads := hopens
  rw [hfirst] at hreads
  obtain ⟨last, hmoves, hlast, hend⟩ := hreads.moves_end_of
    (P := fun returned => Landed data filter config.maxNext range projection returned
      (Store.within data range projection).length plain.stats.visits)
    (Landed.next hnul hraw) (n := 0) hlanded
  rw [Nat.zero_add] at hend
  exact ⟨_, last, _, plain, ⟨hopens, hfirst ▸ hmoves, hlast⟩, ⟨halone, hplain, hplainEnd⟩,
    hend.accounts hlast⟩

def spread : OrderedMap Key Bytes := .ofList
  [(⟨[1], [2], 97 :: 0 :: Utf8.encode "20200612".toList, [], 1⟩, [0]),
    (⟨[1], [2], 97 :: 0 :: Utf8.encode "20200613".toList, [], 1⟩, [1]),
    (⟨[1], [2], 97 :: 0 :: Utf8.encode "20200614".toList, [], 1⟩, [2]),
    (⟨[1], [2], 98 :: 0 :: Utf8.encode "20200615".toList, [], 1⟩, [3]),
    (⟨[1], [2], 99 :: 0 :: Utf8.encode "20200616".toList, [], 1⟩, [4]),
    (⟨[1], [2], 99 :: 0 :: Utf8.encode "20200617".toList, [], 1⟩, [5])]

def bounded : Range :=
  ⟨.unbounded, .included ⟨[1], [2], 99 :: 0 :: Utf8.encode "20200617".toList, [], 1⟩⟩

/-- Settings for the second datatype, with one step before a jump. -/
def middle : Filter.Config := ⟨.ofList [[98]], some "20200101", some "20201231", 1⟩

theorem scan_accounts_bounded : ∃ filter, Filter.ofConfig middle = .ok filter ∧
    Cursor.RawWithin spread bounded .everything ∧
    (∀ last fault s, Cursor.Reached (ofSource filter 1 (Store.ofData spread)) last fault s →
      LoopsEnd s) ∧
    ∃ out last alone plain,
      Cursor.Scans (Cursor.seek bounded .everything (ofSource filter 1 (Store.ofData spread))) out last ∧
      Cursor.Scans (Cursor.seek bounded .everything (Store.ofData spread)) alone plain ∧
      Accounts filter bounded out.length (Store.within spread bounded .everything).length
        plain.stats.visits last := by
  have hraw : Cursor.RawWithin spread bounded .everything := by
    have hall : (Store.within spread bounded .everything).all fun record => record.1.parts.isRaw := by
      decide +kernel
    exact fun record => List.all_eq_true.1 hall record
  have hvalid : ∃ filter, Filter.ofConfig middle = .ok filter := ⟨_, rfl⟩
  obtain ⟨filter, hfilter⟩ := hvalid
  exact ⟨filter, hfilter, hraw, scan_accounts hfilter hraw⟩

/-- Here a step and a jump lead to the only accepted record, and a step to one whose hint lies past the
end. -/
example : (Filter.ofConfig middle).toOption.map (fun filter =>
    let s := (Cursor.collect bounded (ofSource filter 1 (Store.ofData spread))).1
    (s.finished, s.stats, s.source.stats)) = some (true, ⟨1, 4, 1, 2⟩, ⟨2, 5⟩) := by
  decide +kernel

end Sieve

end DatedCounts
