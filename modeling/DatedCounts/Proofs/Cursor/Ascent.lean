import DatedCounts.Proofs.Cursor.Climbing
import DatedCounts.Proofs.Cursor.Exposure
import DatedCounts.Proofs.Cursor.Stack
import DatedCounts.Proofs.Cursor.Sums

/-!
# Stacks climb

A rollup over a source that climbs gathers whole series, so the series of the records that it holds back
lie below all series that are ahead in its source. It climbs as its source does, and so does every stack
of sieves and rollups.
-/

namespace DatedCounts

theorem Key.isRaw_series_key (key : Key) (visibility : Bytes) (timestamp : UInt64) :
    (key.series.key visibility timestamp).parts.isRaw = false := by
  have hparts : (key.series.key visibility timestamp).parts = .aggregated key.parts.datatype :=
    Qualifier.ofBytes_datatype key.qualifier
  rw [hparts]
  rfl

namespace Rollup

variable {σ : Type} [Cursor σ] [Cursor.Halting σ] {Inv : σ → Prop} {rank : σ → Nat}

/-! ### Gathering a group -/

/-- What is gathered without an error is all that is ahead of the series of the group. -/
theorem gather_beyond (h : Cursor.Climbing Inv rank) (steps : Nat) (group : Group) {s : Rollup σ}
    (hs : Inv s.source) (hsteps : rank s.source < steps)
    (hahead : Cursor.Ahead (fun later => (compare group.series later.1.series).isLE) s.source)
    {s' : Rollup σ} {sums : Group} (hgather : gather steps group s = (s', .ok sums)) :
    Cursor.Beyond group.series s'.source ∧
      ∃ members, sums = group.addAll members ∧ members.length + rank s'.source ≤ rank s.source ∧
        (members = [] → ∀ record ∈ Cursor.top? s.source, group.holds record.1 = false) := by
  -- The rank of the source says that the moves suffice: no group is cut off where they run out.
  induction steps generalizing group s with
  | zero => cases hsteps
  | succ steps ih =>
    rw [gather] at hgather
    cases htop : Cursor.top? s.source with
    | none =>
      simp only [htop, Prod.mk.injEq, Except.ok.injEq] at hgather
      obtain ⟨rfl, rfl⟩ := hgather
      exact ⟨Cursor.ahead_of_none htop, [], rfl, by simp, by simp⟩
    | some record =>
      obtain ⟨key, value⟩ := record
      simp only [htop] at hgather
      by_cases hholds : group.holds key
      · rw [if_pos hholds] at hgather
        cases hcounts : Record.counts (key, value) with
        | error e => simp [hcounts] at hgather
        | ok counts =>
          simp only [hcounts, show (s.countInput key).source = s.source from rfl] at hgather
          have hlt := h.rank_lt hs htop
          have hinv := h.advance hs
          have hrest := hahead.advance
          cases hmove : Cursor.advance s.source with
          | failed e source => simp [hmove] at hgather
          | done source =>
            rw [hmove] at hlt hinv hrest
            simp only [hmove] at hgather
            have hfewer : rank source < steps := Nat.lt_of_lt_of_le hlt (Nat.le_of_lt_succ hsteps)
            obtain ⟨hbeyond, members, hsums, hlength, _⟩ := ih (group.add key counts)
              (s := { s.countInput key with source }) hinv hfewer hrest hgather
            refine ⟨hbeyond, (key, value) :: members, ?_, ?_, by simp⟩
            · have hheld := Record.held_of_counts hcounts
              rw [hsums, ← hheld]
              rfl
            · rw [List.length_cons, Nat.add_right_comm]
              exact Nat.lt_of_le_of_lt hlength hlt
      · rw [if_neg hholds] at hgather
        simp only [Prod.mk.injEq, Except.ok.injEq] at hgather
        obtain ⟨rfl, rfl⟩ := hgather
        have hlt : compare group.series key.series = .lt := by
          refine (Ordering.isLE_iff_eq_lt_or_eq_eq.1 (hahead.top htop)).resolve_right fun heq => ?_
          exact hholds (Group.holds_iff.2 (Std.compare_eq_iff_eq.1 heq).symm)
        have hbeyond : Cursor.Beyond group.series s.source :=
          (h.series_isLE hs htop).imp fun _ hle => Std.TransCmp.lt_of_lt_of_isLE hlt hle
        exact ⟨hbeyond, [], rfl, by simp, by simpa [htop] using hholds⟩

theorem nextGroup_cases (h : Cursor.Climbing Inv rank) {s : Rollup σ} (hs : Inv s.source)
    (hpending : s.pending = []) :
    let s' := (nextGroup s).state
    s'.pending = [] ∨ ∃ first, Cursor.top? s.source = some first ∧
      (∀ sums ∈ s'.pending, ∃ visibility timestamp,
        sums.1 = first.1.series.key visibility timestamp) ∧
      Ascending s'.pending ∧ Cursor.Beyond first.1.series s'.source ∧
      s'.pending.length + rank s'.source ≤ rank s.source := by
  intro s'
  rw [show s' = (nextGroup s).state from rfl, nextGroup]
  cases htop : Cursor.top? s.source with
  | none => exact .inl hpending
  | some record =>
    obtain ⟨key, value⟩ := record
    have hkept := pending_gather (Cursor.size s.source + 1) (.ofKey key) s
    simp only
    cases hgather : gather (Cursor.size s.source + 1) (.ofKey key) s with
    | mk gathered read =>
      rw [hgather, hpending] at hkept
      cases read with
      | error e => exact .inl hkept
      | ok group =>
        simp only
        cases hout : group.records gathered.combiner with
        | error e => exact .inl hkept
        | ok out =>
          obtain ⟨hbeyond, members, rfl, hlength, hnil⟩ := gather_beyond h _ (.ofKey key) hs
            (Nat.lt_succ_of_le (h.rank_le hs)) (h.series_isLE hs htop) hgather
          have hmembers : members ≠ [] := by
            intro hempty
            have hfirst := hnil hempty (key, value) htop
            simp [Group.holds_iff.2 (show key.series = (Group.ofKey key).series from rfl)] at hfirst
          have hbound := (Group.records_bounds (Group.labels_addAll_ne_nil _ hmembers) hout).2
          have hsize := Group.size_labels_addAll_le (.ofKey key) members
          have hempty : (Group.ofKey key).labels.size = 0 := rfl
          refine .inr ⟨(key, value), rfl, fun sums hsums => ?_, Group.records_ascending hout, hbeyond,
            ?_⟩
          · obtain ⟨visibility, timestamp, hkey⟩ := Group.records_key hout hsums
            rw [Group.series_addAll] at hkey
            exact ⟨visibility, timestamp, hkey⟩
          · change out.length + rank gathered.source ≤ rank s.source
            omega

/-! ### Climbing -/

/-- A rollup that holds back sums of series below all that is ahead in its source. -/
structure Climbs (Inv : σ → Prop) (rank : σ → Nat) (s : Rollup σ) : Prop where
  source : Inv s.source
  ascending : Ascending s.pending
  sums : ∀ record ∈ s.pending, record.1.parts.isRaw = false
  beyond : ∀ record ∈ s.pending, Cursor.Beyond record.1.series s.source
  bounded : s.pending.length + rank s.source ≤ Cursor.size s.source

variable (h : Cursor.Climbing Inv rank)
include h

theorem nextGroup_above {s : Rollup σ} (hs : Inv s.source) (hpending : s.pending = []) {key : Key}
    (hkey : Cursor.Beyond key.series s.source) :
    (∀ record ∈ (nextGroup s).state.pending, compare key record.1 = .lt) ∧
      Cursor.Beyond key.series (nextGroup s).state.source := by
  refine ⟨fun record hrecord => ?_, (nextGroup_keeps (fun hsource => hsource.advance)
    (s := s) ⟨hkey, rfl⟩).1⟩
  rcases nextGroup_cases h hs hpending with hnone | ⟨first, htop, hsums, _⟩
  · rw [hnone] at hrecord
    cases hrecord
  · obtain ⟨visibility, timestamp, hsame⟩ := hsums record hrecord
    apply Key.lt_of_series_lt
    rw [hsame, Key.series_key]
    exact hkey.top htop

theorem advance_above {s : Rollup σ} (hs : Climbs Inv rank s) {key : Key}
    (htail : ∀ record ∈ s.pending.tail, compare key record.1 = .lt)
    (hkey : Cursor.Beyond key.series s.source) :
    (∀ record ∈ (advance s).state.pending, compare key record.1 = .lt) ∧
      Cursor.Beyond key.series (advance s).state.source := by
  rw [advance]
  split
  · next hpending =>
    refine ⟨fun record hrecord => ?_, hkey⟩
    rw [Outcome.state, hpending] at hrecord
    cases hrecord
  · exact nextGroup_above h (s := { s with pending := [] }) hs.source rfl hkey
  · next hpending =>
    rw [hpending] at htail
    exact ⟨htail, hkey⟩

variable [Cursor.Sized σ]

theorem nextGroup_climbs {s : Rollup σ} (hs : Inv s.source) (hpending : s.pending = []) :
    Climbs Inv rank (nextGroup s).state ∧
      (nextGroup s).state.pending.length + rank (nextGroup s).state.source ≤ rank s.source := by
  have hkept := (nextGroup_keeps (P := fun source =>
      Inv source ∧ rank source ≤ rank s.source ∧ Cursor.size source = Cursor.size s.source)
    (fun hsource => ⟨h.advance hsource.1, Nat.le_trans (h.rank_advance_le hsource.1) hsource.2.1,
      (Cursor.size_advance _).trans hsource.2.2⟩) (s := s) ⟨⟨hs, Nat.le_refl _, rfl⟩, rfl⟩).1
  obtain ⟨hinv, hrank, hsize⟩ := hkept
  have hle := h.rank_le hs
  rcases nextGroup_cases h hs hpending with hnone | ⟨first, _, hsums, hascending, hbeyond, hbound⟩
  · have hbound : (nextGroup s).state.pending.length + rank (nextGroup s).state.source ≤
        rank s.source := by
      rw [hnone]
      simpa using hrank
    exact ⟨⟨hinv, by simp [hnone], by simp [hnone], by simp [hnone], by omega⟩, hbound⟩
  · refine ⟨⟨hinv, hascending, fun record hrecord => ?_, fun record hrecord => ?_, by omega⟩, hbound⟩
    · obtain ⟨visibility, timestamp, hkey⟩ := hsums record hrecord
      rw [hkey, Key.isRaw_series_key]
    · obtain ⟨visibility, timestamp, hkey⟩ := hsums record hrecord
      rwa [hkey, Key.series_key]

theorem advance_climbs {s : Rollup σ} (hs : Climbs Inv rank s) :
    Climbs Inv rank (advance s).state := by
  rw [advance]
  split
  · exact hs
  · exact (nextGroup_climbs h (s := { s with pending := [] }) hs.source rfl).1
  · next first second rest hpending =>
    have hrest : ∀ record ∈ second :: rest, record ∈ s.pending := by
      intro record hrecord
      rw [hpending]
      exact List.mem_cons_of_mem _ hrecord
    have hascending := hs.ascending
    have hbounded := hs.bounded
    rw [hpending] at hascending hbounded
    exact {
      source := hs.source
      ascending := (List.pairwise_cons.1 hascending).2
      sums := fun record hrecord => hs.sums record (hrest record hrecord)
      beyond := fun record hrecord => hs.beyond record (hrest record hrecord)
      bounded := Nat.le_trans (Nat.add_le_add_right (Nat.le_succ _) _) hbounded }

theorem above_of_beyond {s : Rollup σ} (hs : Climbs Inv rank s) {key : Key}
    (hpending : ∀ record ∈ s.pending, compare key record.1 = .lt)
    (hkey : Cursor.Beyond key.series s.source) : Cursor.Above key s := by
  refine Cursor.ahead_of_invariant (I := fun s : Rollup σ => Climbs Inv rank s ∧
    (∀ record ∈ s.pending, compare key record.1 = .lt) ∧ Cursor.Beyond key.series s.source)
    ?_ ?_ ⟨hs, hpending, hkey⟩
  · rintro s ⟨hs, hpending, hkey⟩
    have htail : ∀ record ∈ s.pending.tail, compare key record.1 = .lt :=
      fun record hrecord => hpending record (List.mem_of_mem_tail hrecord)
    exact ⟨advance_climbs h hs, advance_above h hs htail hkey⟩
  · rintro s record ⟨_, hpending, _⟩ htop
    exact hpending record (List.mem_of_mem_head? htop)

theorem climbing : Cursor.Climbing (Climbs Inv rank)
    (fun s : Rollup σ => s.pending.length + rank s.source) where
  seek {s} range projection hs := by
    have hsource := h.seek range.widened projection hs.source
    refine Outcome.state_andThen (P := Inv) (Q := Climbs Inv rank) hsource ?_ ?_
    · exact fun source hinv => (nextGroup_climbs h hinv rfl).1
    · exact fun source hinv => {
        source := hinv
        ascending := .nil
        sums := by simp
        beyond := by simp
        bounded := by simpa using h.rank_le hinv }
  advance hs := advance_climbs h hs
  above {s record} hs htop := by
    obtain ⟨rest, hpending⟩ := List.head?_eq_some_iff.1 htop
    have hascending := hs.ascending
    rw [hpending] at hascending
    have htail : ∀ later ∈ s.pending.tail, compare record.1 later.1 = .lt := by
      rw [hpending]
      exact (List.pairwise_cons.1 hascending).1
    have hrecord := hs.beyond record (List.mem_of_mem_head? htop)
    obtain ⟨habove, hbeyond⟩ := advance_above h hs htail hrecord
    exact above_of_beyond h (advance_climbs h hs) habove hbeyond
  rank_lt {s record} hs htop := by
    obtain ⟨rest, hpending⟩ := List.head?_eq_some_iff.1 htop
    change (advance s).state.pending.length + rank (advance s).state.source <
      s.pending.length + rank s.source
    rw [advance, hpending]
    cases rest with
    | nil =>
      have hbound := (nextGroup_climbs h (s := { s with pending := [] }) hs.source rfl).2
      simp only [List.length_singleton]
      exact Nat.lt_of_le_of_lt hbound (Nat.lt_add_of_pos_left Nat.one_pos)
    | cons second rest => exact Nat.add_lt_add_right (Nat.lt_succ_self _) _
  rank_le hs := hs.bounded
  jump {s record} hs htop hraw := by
    -- No sieve jumps past sums, whose keys are not raw.
    rw [hs.sums record (List.mem_of_mem_head? htop)] at hraw
    cases hraw

/-- Whether the records that a rollup holds back ascend from its top on, and lie below all that it will
make of the rest of its source. -/
structure InOrder (s : Rollup σ) : Prop where
  pending : Ascending s.pending
  later : ∀ record ∈ s.pending, Cursor.Above record.1 (nextGroup { s with pending := [] }).state

theorem Climbs.inOrder {s : Rollup σ} (hs : Climbs Inv rank s) : InOrder s where
  pending := hs.ascending
  later record hrecord := by
    obtain ⟨habove, hbeyond⟩ := nextGroup_above h (s := { s with pending := [] }) hs.source rfl
      (hs.beyond record hrecord)
    have hclimbs := (nextGroup_climbs h (s := { s with pending := [] }) hs.source rfl).1
    exact above_of_beyond h hclimbs habove hbeyond

end Rollup

/-! ### Stacks -/

namespace Cursor

inductive Call where
  | seek (range : Range) (projection : Projection)
  | advance

variable {σ : Type} [Cursor σ]

def call (s : σ) : Call → Outcome σ
  | .seek range projection => seek range projection s
  | .advance => advance s

/-- The state that calls lead to, whether or not they fail. -/
def after (s : σ) (calls : List Call) : σ := calls.foldl (fun s next => (call s next).state) s

theorem Climbing.after {Inv : σ → Prop} {rank : σ → Nat} (h : Climbing Inv rank) {s : σ} (hs : Inv s)
    (calls : List Call) : Inv (after s calls) := by
  induction calls generalizing s with
  | nil => exact hs
  | cons next calls ih =>
    cases next with
    | seek range projection => exact ih (h.seek range projection hs)
    | advance => exact ih (h.advance hs)

theorem Kept.after {P : σ → Prop} (hP : Kept P) {s : σ} (hs : P s) (calls : List Call) :
    P (after s calls) := by
  induction calls generalizing s with
  | nil => exact hs
  | cons next calls ih =>
    cases next with
    | seek range projection => exact ih (hP.seek range projection hs)
    | advance => exact ih (hP.advance hs)

end Cursor

def Layer.IsValid : Layer → Prop
  | .sieve filter _ => ∃ config, Filter.ofConfig config = .ok filter
  | .rollup _ => True

theorem Layer.isValid_of_mapM {configs : List Filter.Config} {layers : List Layer}
    (h : configs.mapM Filter.Config.layer = .ok layers) : ∀ layer ∈ layers, layer.IsValid := by
  refine forall_of_forall₂ ((forall₂_of_mapM h).imp fun config layer hlayer => ?_)
  obtain ⟨filter, hfilter, rfl⟩ := map_eq_ok.1 hlayer
  exact ⟨config, hfilter⟩

namespace Stack

instance sized : (layers : List Layer) → Cursor.Sized (Stack layers)
  | [] => inferInstanceAs (Cursor.Sized Store)
  | .sieve .. :: below =>
    have := sized below
    inferInstanceAs (Cursor.Sized (Sieve (Stack below)))
  | .rollup _ :: below =>
    have := sized below
    inferInstanceAs (Cursor.Sized (Rollup (Stack below)))

/-- A bound on the records that are ahead of a stack. -/
def rank : (layers : List Layer) → Stack layers → Nat
  | [], (s : Store) => s.ahead.length
  | .sieve .. :: below, (s : Sieve (Stack below)) => rank below s.source
  | .rollup _ :: below, (s : Rollup (Stack below)) => s.pending.length + rank below s.source

/-- The states of a stack from which it climbs. -/
def Climbs : (layers : List Layer) → Stack layers → Prop
  | [], (s : Store) => s.ahead <:+ s.data.toList
  | .sieve filter _ :: below, (s : Sieve (Stack below)) => Climbs below s.source ∧ s.filter = filter
  | .rollup _ :: below, (s : Rollup (Stack below)) => Rollup.Climbs (Climbs below) (rank below) s

def RollupsInOrder : (layers : List Layer) → Stack layers → Prop
  | [], _ => True
  | .sieve .. :: below, (s : Sieve (Stack below)) => RollupsInOrder below s.source
  | .rollup _ :: below, (s : Rollup (Stack below)) => s.InOrder ∧ RollupsInOrder below s.source

theorem climbing {layers : List Layer} (hlayers : ∀ layer ∈ layers, layer.IsValid) :
    Cursor.Climbing (Climbs layers) (rank layers) := by
  induction layers with
  | nil => exact Store.climbing
  | cons layer below ih =>
    obtain ⟨hlayer, hbelow⟩ := List.forall_mem_cons.1 hlayers
    cases layer with
    | sieve filter maxNext =>
      obtain ⟨config, hfilter⟩ := hlayer
      exact Sieve.climbing (ih hbelow) (Filter.separator_notMem_of_mem hfilter)
    | rollup combiner => exact Rollup.climbing (ih hbelow)

theorem climbs_ofData (data : OrderedMap Key Bytes) {layers : List Layer}
    (hlayers : ∀ layer ∈ layers, layer.IsValid) : Climbs layers (ofData data layers) := by
  induction layers with
  | nil => exact List.nil_suffix
  | cons layer below ih =>
    have hbelow := (List.forall_mem_cons.1 hlayers).2
    cases layer with
    | sieve => exact ⟨ih hbelow, rfl⟩
    | rollup => exact {
        source := ih hbelow
        ascending := .nil
        sums := fun _ h => nomatch h
        beyond := fun _ h => nomatch h
        bounded := by
          have hle := (climbing hbelow).rank_le (ih hbelow)
          exact (Nat.zero_add _).trans_le hle }

theorem Climbs.rollupsInOrder {layers : List Layer} (hlayers : ∀ layer ∈ layers, layer.IsValid)
    {s : Stack layers} (h : Climbs layers s) : RollupsInOrder layers s := by
  induction layers with
  | nil => trivial
  | cons layer below ih =>
    have hbelow := (List.forall_mem_cons.1 hlayers).2
    cases layer with
    | sieve => exact ih hbelow h.1
    | rollup => exact ⟨Rollup.Climbs.inOrder (climbing hbelow) h, ih hbelow (Rollup.Climbs.source h)⟩

/-- Whatever was called before, the records that a stack shows from one seek to the next are in strictly
ascending order, whether or not its moves fail, and so are those that each of its rollups holds back and
what it will make of the rest of its source. -/
theorem tops_ascend {layers : List Layer} (hlayers : ∀ layer ∈ layers, layer.IsValid)
    (data : OrderedMap Key Bytes) (calls : List Cursor.Call) :
    let s := Cursor.after (ofData data layers) calls
    RollupsInOrder layers s ∧
      ∀ (range : Range) (projection : Projection) (i j : Nat) (a b : Record), i < j →
        Cursor.top? (Cursor.moves (Cursor.seek range projection s) i).state = some a →
        Cursor.top? (Cursor.moves (Cursor.seek range projection s) j).state = some b →
        compare a.1 b.1 = .lt := by
  intro s
  have hclimbing := climbing hlayers
  have hs : Climbs layers s := hclimbing.after (climbs_ofData data hlayers) calls
  refine ⟨hs.rollupsInOrder hlayers, fun range projection i j a b hij ha hb => ?_⟩
  exact hclimbing.top?_lt (hclimbing.seek range projection hs) hij ha hb

/-- A rollup over a sieve, which lets days of 2020 through and jumps past the others. -/
def yearly : List Layer := [.rollup none, .sieve Sieve.yearFilter 0]

theorem tops_ascend_yearly :
    (∀ layer ∈ yearly, layer.IsValid) ∧
    let s := Cursor.after (ofData days yearly) [.advance, .seek .all .everything, .advance]
    RollupsInOrder yearly s ∧ ∃ a b,
      Cursor.top? (Cursor.moves (Cursor.seek .all .everything s) 0).state = some a ∧
      Cursor.top? (Cursor.moves (Cursor.seek .all .everything s) 1).state = some b ∧
      compare a.1 b.1 = .lt := by
  have hvalid : ∀ layer ∈ yearly, layer.IsValid := by
    intro layer hlayer
    rcases List.mem_pair.1 hlayer with rfl | rfl
    · trivial
    · exact ⟨Sieve.year, Sieve.ofConfig_year⟩
  obtain ⟨horder, htops⟩ :=
    tops_ascend hvalid days [.advance, .seek .all .everything, .advance]
  exact ⟨hvalid, horder, _, _, rfl, rfl, htops .all .everything 0 1 _ _ Nat.one_pos rfl rfl⟩

end Stack

end DatedCounts
