import DatedCounts.Proofs.Cursor.Moves
import DatedCounts.Proofs.Cursor.Sieve

/-!
# Cursors that climb

A cursor climbs when everything that it shows after an advance lies above the record that it was advanced
from, whether or not the advances fail. A jump past a raw record must not lead back below it either. The
records that a cursor can still show are counted by a rank, which each advance lowers.
-/

namespace DatedCounts

namespace Cursor

variable {σ : Type} [Cursor σ]

/-! ### What lies ahead -/

/-- Whether all records have a property that are shown from a state on, however often it is advanced and
whether or not the advances fail. -/
def Ahead (P : Record → Prop) (s : σ) : Prop :=
  ∀ n, ∀ record ∈ top? (moves (.done s) n).state, P record

abbrev Above (key : Key) (s : σ) : Prop := Ahead (fun later => compare key later.1 = .lt) s

/-- Whether all records that are ahead belong to series above a given one. -/
abbrev Beyond (series : Series) (s : σ) : Prop :=
  Ahead (fun later => compare series later.1.series = .lt) s

section Ahead

variable {P Q : Record → Prop} {s : σ} {record : Record}

theorem moves_add (first : Outcome σ) (i k : Nat) :
    (moves first (i + k)).state = (moves (.done (moves first i).state) k).state := by
  induction k with
  | zero => rfl
  | succ k ih => rw [← Nat.add_assoc, moves, ih, moves]

theorem Ahead.top (h : Ahead P s) (htop : top? s = some record) : P record :=
  h 0 record htop

theorem Ahead.advance (h : Ahead P s) : Ahead P (Cursor.advance s).state := by
  intro n record hrecord
  refine h (1 + n) record ?_
  rw [moves_add]
  exact hrecord

theorem Ahead.imp (h : Ahead P s) (hPQ : ∀ record, P record → Q record) : Ahead Q s :=
  fun n record hrecord => hPQ record (h n record hrecord)

/-- What holds of the top in all states with an invariant of advances holds of all that is ahead. -/
theorem ahead_of_invariant {I : σ → Prop} (hadvance : ∀ s, I s → I (Cursor.advance s).state)
    (htop : ∀ s record, I s → top? s = some record → P record) (h : I s) : Ahead P s := by
  intro n record hrecord
  have hinv : I (moves (.done s) n).state := by
    clear hrecord
    induction n with
    | zero => exact h
    | succ n ih => exact hadvance _ ih
  exact htop _ record hinv hrecord

theorem ahead_of_none [Halting σ] (h : top? s = none) : Ahead P s := by
  refine ahead_of_invariant (I := fun s : σ => top? s = none) ?_ ?_ h
  · intro s hs
    obtain ⟨reader, hadvance⟩ := Halting.advance_of_none hs
    rwa [hadvance]
  · intro s record hs htop
    rw [hs] at htop
    cases htop

theorem ahead_cons (htop : top? s = some record) (hrecord : P record)
    (h : Ahead P (Cursor.advance s).state) : Ahead P s := by
  intro n later hlater
  cases n with
  | zero =>
    obtain rfl : record = later := Option.some.inj (htop.symm.trans hlater)
    exact hrecord
  | succ n =>
    rw [Nat.add_comm, moves_add] at hlater
    exact h n later hlater

end Ahead

/-- Cursors that climb, from the states with an invariant, and whose rank bounds what is ahead. -/
structure Climbing (Inv : σ → Prop) (rank : σ → Nat) : Prop where
  seek {s : σ} (range : Range) (projection : Projection) (h : Inv s) :
    Inv (Cursor.seek range projection s).state
  advance {s : σ} (h : Inv s) : Inv (Cursor.advance s).state
  above {s : σ} {record : Record} (h : Inv s) (htop : top? s = some record) :
    Above record.1 (Cursor.advance s).state
  rank_lt {s : σ} {record : Record} (h : Inv s) (htop : top? s = some record) :
    rank (Cursor.advance s).state < rank s
  rank_le {s : σ} (h : Inv s) : rank s ≤ size s
  /-- A jump to a hint stays above the raw record that it starts from. -/
  jump {s : σ} {record : Record} (h : Inv s) (htop : top? s = some record)
    (hraw : record.1.parts.isRaw) {hint : Key} (hhint : compare record.1 hint = .lt) (range : Range)
    (projection : Projection) :
    Above record.1 (Cursor.seek (range.resumeAt hint) projection s).state ∧
      rank (Cursor.seek (range.resumeAt hint) projection s).state ≤ rank s

variable {Inv : σ → Prop} {rank : σ → Nat}

theorem Climbing.series_isLE (h : Climbing Inv rank) {s : σ} (hs : Inv s) {record : Record}
    (htop : top? s = some record) :
    Ahead (fun later => (compare record.1.series later.1.series).isLE) s :=
  ahead_cons htop Std.ReflCmp.isLE_rfl <| (h.above hs htop).imp fun _ hlater =>
    Key.series_isLE (Ordering.isLE_of_eq_lt hlater)

theorem Climbing.rank_advance_le [Halting σ] (h : Climbing Inv rank) {s : σ} (hs : Inv s) :
    rank (Cursor.advance s).state ≤ rank s := by
  cases htop : top? s with
  | none =>
    obtain ⟨reader, hadvance⟩ := Halting.advance_of_none htop
    rw [hadvance]
    exact Nat.le_refl _
  | some record => exact Nat.le_of_lt (h.rank_lt hs htop)

theorem Climbing.top?_lt (h : Climbing Inv rank) {first : Outcome σ} (hfirst : Inv first.state)
    {i j : Nat} (hij : i < j) {a b : Record} (ha : top? (moves first i).state = some a)
    (hb : top? (moves first j).state = some b) : compare a.1 b.1 = .lt := by
  have hinv : Inv (moves first i).state := by
    clear ha hij
    induction i with
    | zero => exact hfirst
    | succ i ih => exact h.advance ih
  obtain ⟨k, rfl⟩ := Nat.exists_eq_add_of_le hij
  refine h.above hinv ha k b ?_
  rw [moves_add] at hb
  exact hb

theorem Climbing.exists_reads (h : Climbing Inv rank) {s : σ} (hs : Inv s) :
    ∃ records fault, Reads s records fault ∧ records.length ≤ rank s := by
  induction hn : rank s using Nat.strongRecOn generalizing s with
  | ind n ih =>
    cases htop : top? s with
    | none => exact ⟨[], none, .ended htop, Nat.zero_le _⟩
    | some record =>
      have hlt := h.rank_lt hs htop
      have hinv := h.advance hs
      cases hmove : Cursor.advance s with
      | failed e s' =>
        refine ⟨[record], some e, .failed htop hmove, ?_⟩
        rw [List.length_singleton]
        omega
      | done s' =>
        rw [hmove, hn] at hlt
        rw [hmove] at hinv
        obtain ⟨records, fault, hreads, hlength⟩ := ih (rank s') hlt hinv rfl
        exact ⟨record :: records, fault, .next htop hmove hreads, Nat.lt_of_le_of_lt hlength hlt⟩

theorem Climbing.exists_opens [Sized σ] (h : Climbing Inv rank) {s : σ} (hs : Inv s) (range : Range)
    (projection : Projection) : ∃ records fault, Opens (Cursor.seek range projection s) records fault ∧
      records.length ≤ size s := by
  have htop := h.seek range projection hs
  rw [← size_seek range projection s]
  cases hseek : Cursor.seek range projection s with
  | failed e s' => exact ⟨[], some e, ⟨rfl, rfl⟩, Nat.zero_le _⟩
  | done top =>
    rw [hseek] at htop
    obtain ⟨records, fault, hreads, hlength⟩ := h.exists_reads htop
    exact ⟨records, fault, hreads, Nat.le_trans hlength (h.rank_le htop)⟩

end Cursor

/-! ### Stores -/

namespace Store

theorem suffix_of_notMem {left rest records : List Record} {record : Record} (h : left <:+ records)
    (hcons : (record :: rest) <:+ records) (hrecord : record ∉ left) : left <:+ rest := by
  rcases List.suffix_or_suffix_of_suffix h hcons with hshorter | hlonger
  · rcases List.suffix_cons_iff.1 hshorter with rfl | hrest
    · exact absurd List.mem_cons_self hrecord
    · exact hrest
  · exact absurd (hlonger.mem List.mem_cons_self) hrecord

theorem settle_suffix (range : Range) (projection : Projection) (records : List Record) :
    (settle range projection records).1 <:+ records := by
  induction records with
  | nil => exact List.suffix_refl []
  | cons record rest ih =>
    rw [settle]
    split
    · exact List.nil_suffix
    · split
      · exact List.suffix_refl _
      · exact ih.trans (List.suffix_cons _ _)

theorem advance_suffix (s : Store) : (advance s).state.ahead <:+ s.ahead.tail := by
  rw [advance]
  cases hahead : s.ahead with
  | nil =>
    rw [Outcome.state, hahead]
    exact List.suffix_refl []
  | cons record rest => exact settle_suffix s.range s.projection rest

theorem ahead_of_forall {P : Record → Prop} {s : Store} (h : ∀ record ∈ s.ahead, P record) :
    Cursor.Ahead P s := by
  refine Cursor.ahead_of_invariant (I := fun s : Store => ∀ record ∈ s.ahead, P record) ?_ ?_ h
  · intro s hs record hrecord
    exact hs record (List.mem_of_mem_tail ((advance_suffix s).mem hrecord))
  · intro s record hs htop
    exact hs record (List.mem_of_mem_head? htop)

/-- What is ahead after a seek belongs to an end of the data, which begins with the range. -/
theorem seek_suffix (range : Range) (projection : Projection) (s : Store) :
    (s.seek range projection).ahead <:+
      s.data.toList.filter fun record => range.afterStart record.1 := by
  rw [← dropWhile_afterStart]
  exact settle_suffix range projection _

theorem climbing : Cursor.Climbing (fun s : Store => s.ahead <:+ s.data.toList)
    (fun s => s.ahead.length) where
  seek {s} range projection _ := by
    have hsuffix : (s.data.toList.dropWhile fun record => !range.afterStart record.1) <:+
        s.data.toList := List.dropWhile_suffix _
    exact (settle_suffix range projection _).trans hsuffix
  advance {s} h := by
    have hsame : (advance s).state.data = s.data := (kept s.data).advance rfl
    change (advance s).state.ahead <:+ (advance s).state.data.toList
    rw [hsame]
    exact (advance_suffix s).trans ((List.tail_suffix _).trans h)
  above {s record} h htop := by
    obtain ⟨rest, hahead⟩ := List.head?_eq_some_iff.1 htop
    have hascending : Ascending s.ahead := s.data.ascending.sublist h.sublist
    rw [hahead] at hascending
    refine ahead_of_forall fun later hlater => ?_
    have hmem := (advance_suffix s).mem hlater
    rw [hahead] at hmem
    exact (List.pairwise_cons.1 hascending).1 later hmem
  rank_lt {s record} _ htop := by
    obtain ⟨rest, hahead⟩ := List.head?_eq_some_iff.1 htop
    have hlength := (advance_suffix s).length_le
    rw [hahead] at hlength
    change (advance s).state.ahead.length < s.ahead.length
    rw [hahead]
    exact Nat.lt_succ_of_le hlength
  rank_le h := h.length_le
  jump {s record} h htop _ hint hhint range projection := by
    have hsuffix := seek_suffix (range.resumeAt hint) projection s
    have hbelow : ∀ later ∈ (s.seek (range.resumeAt hint) projection).ahead,
        compare record.1 later.1 = .lt := by
      intro later hlater
      have hge := (List.mem_filter.1 (hsuffix.mem hlater)).2
      exact Std.TransCmp.lt_of_lt_of_isLE hhint (Std.OrientedCmp.isLE_of_isGE hge)
    obtain ⟨rest, hahead⟩ := List.head?_eq_some_iff.1 htop
    have hend : (s.seek (range.resumeAt hint) projection).ahead <:+ s.data.toList :=
      (settle_suffix _ _ _).trans (List.dropWhile_suffix _)
    have hbehind := suffix_of_notMem hend (hahead ▸ h) fun hmem => ne_of_compare_lt (hbelow record hmem) rfl
    refine ⟨ahead_of_forall hbelow, ?_⟩
    change (s.seek (range.resumeAt hint) projection).ahead.length ≤ s.ahead.length
    rw [hahead]
    exact Nat.le_succ_of_le hbehind.length_le

end Store

/-! ### Sieves -/

namespace Sieve

variable {σ : Type} [Cursor σ] {Inv : σ → Prop} {rank : σ → Nat} {filter : Filter}

/-- A state that is no further from the end than another, with nothing ahead below what is ahead there. -/
private structure Past (Inv : σ → Prop) (rank : σ → Nat) (s s' : σ) : Prop where
  inv : Inv s'
  rank_le : rank s' ≤ rank s
  above (key : Key) (h : Cursor.Above key s) : Cursor.Above key s'

private abbrev Onward (Inv : σ → Prop) (rank : σ → Nat) (filter : Filter) (source : σ)
    (s : Sieve σ) : Prop :=
  Past Inv rank source s.source ∧ s.filter = filter

variable (h : Cursor.Climbing Inv rank)
  (hnul : ∀ accepted ∈ filter.datatypes.toList, Qualifier.separator ∉ accepted)
include h hnul

private theorem settle_onward (steps nexts : Nat) {source : σ} {s : Sieve σ}
    (hs : Onward Inv rank filter source s) :
    Onward Inv rank filter source (settle steps nexts s).state := by
  induction steps generalizing nexts s with
  | zero => exact hs
  | succ steps ih =>
    obtain ⟨hpast, hfilter⟩ := hs
    rw [settle]
    split
    · exact ⟨hpast, hfilter⟩
    · next key value htop =>
      split
      · exact ⟨hpast, hfilter⟩
      · exact ⟨hpast, hfilter⟩
      · next hint hcheck =>
        have hstep : Past Inv rank source (Cursor.advance s.source).state := {
          inv := h.advance hpast.inv
          rank_le := Nat.le_trans (Nat.le_of_lt (h.rank_lt hpast.inv htop)) hpast.rank_le
          above := fun key habove => (hpast.above key habove).advance }
        have hjump : Past Inv rank source
            (Cursor.seek (s.range.resumeAt hint) s.projection s.source).state := by
          rw [hfilter] at hcheck
          have hhint := (Filter.skips_of_reject hnul hcheck).above
          have hraw : key.parts.isRaw := by
            obtain ⟨datatype, date, hparts, _⟩ := Filter.check_eq_reject_iff.1 hcheck
            rw [hparts]
            rfl
          obtain ⟨habove, hrank⟩ := h.jump hpast.inv htop hraw hhint s.range s.projection
          refine ⟨h.seek _ _ hpast.inv, Nat.le_trans hrank hpast.rank_le, fun lower hlower => ?_⟩
          exact habove.imp fun later => Std.TransCmp.lt_trans ((hpast.above lower hlower).top htop)
        simp only
        split
        · apply Outcome.state_andThen hstep
          · exact fun source hsource => ih (nexts + 1) ⟨hsource, hfilter⟩
          · exact fun source hsource => ⟨hsource, hfilter⟩
        · split
          · apply Outcome.state_andThen hjump
            · exact fun source hsource => ih 0 ⟨hsource, hfilter⟩
            · exact fun source hsource => ⟨hsource, hfilter⟩
          · exact ⟨hpast, hfilter⟩

private theorem andThen_onward {move : Outcome σ} (hmove : Inv move.state) {s : Sieve σ}
    (hs : s.filter = filter) :
    Onward Inv rank filter move.state
      (move.andThen (settled <| s.withSource ·) s.withSource).state := by
  have hstart : Past Inv rank move.state move.state := ⟨hmove, Nat.le_refl _, fun _ => id⟩
  refine Outcome.state_andThen (P := Past Inv rank move.state) hstart ?_ ?_
  · exact fun source hsource => settle_onward h hnul _ 0 ⟨hsource, hs⟩
  · exact fun source hsource => ⟨hsource, hs⟩

private theorem seek_onward (range : Range) (projection : Projection) {s : Sieve σ}
    (hs : Inv s.source ∧ s.filter = filter) :
    Onward Inv rank filter (Cursor.seek range projection s.source).state
      (Cursor.seek range projection s).state :=
  andThen_onward h hnul (h.seek range projection hs.1)
    (s := { s with range, projection, finished := false }) hs.2

private theorem advance_onward {s : Sieve σ} (hs : Inv s.source ∧ s.filter = filter) {record : Record}
    (htop : Cursor.top? s = some record) : Cursor.top? s.source = some record ∧
      Onward Inv rank filter (Cursor.advance s.source).state (Cursor.advance s).state := by
  refine ⟨?_, advance_of_top htop ▸ andThen_onward h hnul (h.advance hs.1) hs.2⟩
  change s.top? = _ at htop
  rw [top?] at htop
  split at htop
  · cases htop
  · exact htop

private theorem advance_keeps {s : Sieve σ} (hs : Inv s.source ∧ s.filter = filter) :
    (Inv (Cursor.advance s).state.source ∧ (Cursor.advance s).state.filter = filter) ∧
      ∀ key, Cursor.Above key s.source → Cursor.Above key (Cursor.advance s).state.source := by
  cases htop : Cursor.top? s with
  | none =>
    obtain ⟨reader, hadvance⟩ := Cursor.Halting.advance_of_none htop
    rw [hadvance]
    exact ⟨hs, fun _ => id⟩
  | some record =>
    obtain ⟨_, hpast, hfilter⟩ := advance_onward h hnul hs htop
    exact ⟨⟨hpast.inv, hfilter⟩, fun key hkey => hpast.above key hkey.advance⟩

private theorem above_of_source {key : Key} {s : Sieve σ} (hs : Inv s.source ∧ s.filter = filter)
    (hkey : Cursor.Above key s.source) : Cursor.Above key s := by
  refine Cursor.ahead_of_invariant (I := fun s : Sieve σ =>
    (Inv s.source ∧ s.filter = filter) ∧ Cursor.Above key s.source) ?_ ?_ ⟨hs, hkey⟩
  · rintro s ⟨hs, hkey⟩
    obtain ⟨hkept, habove⟩ := advance_keeps h hnul hs
    exact ⟨hkept, habove key hkey⟩
  · rintro s record ⟨hs, hkey⟩ htop
    exact hkey.top (advance_onward h hnul hs htop).1

theorem climbing : Cursor.Climbing (fun s : Sieve σ => Inv s.source ∧ s.filter = filter)
    (fun s => rank s.source) where
  seek range projection hs := by
    obtain ⟨hpast, hfilter⟩ := seek_onward h hnul range projection hs
    exact ⟨hpast.inv, hfilter⟩
  advance hs := (advance_keeps h hnul hs).1
  above hs htop := by
    obtain ⟨hsource, hpast, hfilter⟩ := advance_onward h hnul hs htop
    exact above_of_source h hnul ⟨hpast.inv, hfilter⟩ (hpast.above _ (h.above hs.1 hsource))
  rank_lt hs htop := by
    obtain ⟨hsource, hpast, _⟩ := advance_onward h hnul hs htop
    exact Nat.lt_of_le_of_lt hpast.rank_le (h.rank_lt hs.1 hsource)
  rank_le hs := h.rank_le hs.1
  jump {s record} hs htop hraw hint hhint range projection := by
    have hsource := (advance_onward h hnul hs htop).1
    obtain ⟨habove, hrank⟩ := h.jump hs.1 hsource hraw hhint range projection
    obtain ⟨hpast, hfilter⟩ := seek_onward h hnul (range.resumeAt hint) projection hs
    exact ⟨above_of_source h hnul ⟨hpast.inv, hfilter⟩ (hpast.above _ habove),
      Nat.le_trans hpast.rank_le hrank⟩

end Sieve

end DatedCounts
