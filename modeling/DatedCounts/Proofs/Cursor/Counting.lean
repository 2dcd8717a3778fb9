import DatedCounts.Cursor.Stack
import DatedCounts.Proofs.Cursor.Reading

/-!
# What cursors count

No move looks at what has been counted. A cursor that has counted more than another, and is in the same
place otherwise, makes the same moves and stays ahead of it by as much.
-/

namespace DatedCounts

def Outcome.map {σ τ : Type} (f : σ → τ) : Outcome σ → Outcome τ
  | done s => done (f s)
  | failed e s => failed e (f s)

namespace Outcome

variable {σ σ' τ τ' : Type}

@[simp] theorem state_map (f : σ → τ) (move : Outcome σ) : (move.map f).state = f move.state := by
  cases move <;> rfl

@[simp] theorem error?_map (f : σ → τ) (move : Outcome σ) : (move.map f).error? = move.error? := by
  cases move <;> rfl

theorem andThen_map {f : σ → σ'} {k : τ → τ'} {next : σ → Outcome τ} {next' : σ' → Outcome τ'}
    {stop : σ → τ} {stop' : σ' → τ'} (hnext : ∀ s, next' (f s) = (next s).map k)
    (hstop : ∀ s, stop' (f s) = k (stop s)) (move : Outcome σ) :
    (move.map f).andThen next' stop' = (move.andThen next stop).map k := by
  cases move with
  | done s => exact hnext s
  | failed e s => exact congrArg (Outcome.failed e) (hstop s)

end Outcome

/-! ### Counters -/

namespace Store.Stats

instance : Add Stats := ⟨fun a b => ⟨a.seeks + b.seeks, a.visits + b.visits⟩⟩

theorem add_assoc (a b c : Stats) : a + b + c = a + (b + c) := by
  change mk _ _ = mk _ _
  congr 1 <;> exact Nat.add_assoc _ _ _

theorem zero_add (a : Stats) : ⟨0, 0⟩ + a = a := by
  change mk _ _ = mk _ _
  congr 1 <;> exact Nat.zero_add _

end Store.Stats

namespace Sieve.Stats

instance : Add Stats :=
  ⟨fun a b => ⟨a.accepted + b.accepted, a.rejected + b.rejected, a.seeks + b.seeks,
    a.nexts + b.nexts⟩⟩

theorem zero_add (a : Stats) : ⟨0, 0, 0, 0⟩ + a = a := by
  change mk _ _ _ _ = mk _ _ _ _
  congr 1 <;> exact Nat.zero_add _

end Sieve.Stats

namespace Rollup.Stats

instance : Add Stats :=
  ⟨fun a b => ⟨a.groups + b.groups, a.input + b.input, a.raw + b.raw,
    a.aggregated + b.aggregated, a.output + b.output⟩⟩

theorem add_assoc (a b c : Stats) : a + b + c = a + (b + c) := by
  change mk _ _ _ _ _ = mk _ _ _ _ _
  congr 1 <;> exact Nat.add_assoc _ _ _

theorem zero_add (a : Stats) : ⟨0, 0, 0, 0, 0⟩ + a = a := by
  change mk _ _ _ _ _ = mk _ _ _ _ _
  congr 1 <;> exact Nat.zero_add _

end Rollup.Stats

/-- The counters of two layers added up, under the settings of the second. -/
def LayerStats.plus : LayerStats → LayerStats → LayerStats
  | .store a, .store b => .store (a + b)
  | .sieve _ a, .sieve filter b => .sieve filter (a + b)
  | .rollup _ a, .rollup combines b => .rollup combines (a + b)
  | _, stats => stats

namespace Cursor

variable {σ : Type} [Cursor σ]

/-- Maps of states that no move notices. -/
structure Commutes (f : σ → σ) : Prop where
  size (s : σ) : Cursor.size (f s) = Cursor.size s
  top? (s : σ) : Cursor.top? (f s) = Cursor.top? s
  seek (range : Range) (projection : Projection) (s : σ) :
    Cursor.seek range projection (f s) = (Cursor.seek range projection s).map f
  advance (s : σ) : Cursor.advance (f s) = (Cursor.advance s).map f

end Cursor

/-! ### Stores -/

namespace Store

/-- A store that has counted more. -/
def credit (gain : Stats) (s : Store) : Store := { s with stats := gain + s.stats }

theorem moveTo_credit (gain : Stats) (records : List Record) (s : Store) :
    (s.credit gain).moveTo records = (s.moveTo records).credit gain := by
  have hstats := Stats.add_assoc gain s.stats ⟨0, (settle s.range s.projection records).2⟩
  exact congrArg (fun stats => { s.moveTo records with stats }) hstats

theorem seek_eq_map (gain : Stats) {range : Range} {projection : Projection} {s t : Store}
    (hdata : s.data = t.data) (hstats : s.stats = gain + t.stats) :
    Cursor.seek range projection s = (Cursor.seek range projection t).map (credit gain) := by
  obtain ⟨data, _, _, ahead, stats⟩ := s
  obtain rfl : data = t.data := hdata
  obtain rfl : stats = gain + t.stats := hstats
  let placed : Store := ⟨t.data, range, projection, ahead, { t.stats with seeks := t.stats.seeks + 1 }⟩
  exact congrArg Outcome.done (moveTo_credit gain _ placed)

theorem commutes_credit (gain : Stats) : Cursor.Commutes (credit gain) where
  size _ := rfl
  top? _ := rfl
  seek _ _ _ := seek_eq_map gain rfl rfl
  advance s := by
    change advance (s.credit gain) = (advance s).map (credit gain)
    rw [advance, advance, show (s.credit gain).ahead = s.ahead from rfl]
    cases s.ahead with
    | nil => rfl
    | cons record rest => exact congrArg Outcome.done (moveTo_credit gain rest s)

end Store

/-! ### Sieves -/

namespace Sieve

variable {σ : Type} {f : σ → σ}

def credit (f : σ → σ) (gain : Stats) (s : Sieve σ) : Sieve σ :=
  { s with source := f s.source, stats := gain + s.stats }

@[simp] theorem source_credit (gain : Stats) (s : Sieve σ) :
    (s.credit f gain).source = f s.source := rfl

variable [Cursor σ] (h : Cursor.Commutes f) (gain : Stats)
include h

theorem top?_credit (s : Sieve σ) : top? (s.credit f gain) = top? s := by
  simp only [top?, credit, h.top?]

theorem settle_credit (steps nexts : Nat) (s : Sieve σ) :
    settle steps nexts (s.credit f gain) = (settle steps nexts s).map (credit f gain) := by
  induction steps generalizing nexts s with
  | zero => rfl
  | succ steps ih =>
    simp only [settle, credit, h.top?]
    cases Cursor.top? s.source with
    | none => rfl
    | some record =>
      simp only
      cases s.filter.check record.1 with
      | error e => rfl
      | ok decision =>
        cases decision with
        | accept => rfl
        | reject hint =>
          simp only [h.advance, h.seek]
          split
          · let stepped : Sieve σ := { s with
              stats.rejected := s.stats.rejected + 1, stats.nexts := s.stats.nexts + 1 }
            apply Outcome.andThen_map
            · exact fun source => ih (nexts + 1) (stepped.withSource source)
            · exact fun source => rfl
          · split
            · let jumped : Sieve σ := { s with
                stats.rejected := s.stats.rejected + 1, stats.seeks := s.stats.seeks + 1 }
              apply Outcome.andThen_map
              · exact fun source => ih 0 (jumped.withSource source)
              · exact fun source => rfl
            · rfl

theorem settled_credit (s : Sieve σ) :
    settled (s.credit f gain) = (settled s).map (credit f gain) := by
  simp only [settled, source_credit, h.size]
  exact settle_credit h gain _ 0 s

theorem seek_eq_map {range : Range} {projection : Projection} {s t : Sieve σ}
    (hsource : Cursor.seek range projection s.source =
      (Cursor.seek range projection t.source).map f)
    (hfilter : s.filter = t.filter) (hmax : s.maxNext = t.maxNext)
    (hstats : s.stats = gain + t.stats) :
    Cursor.seek range projection s = (Cursor.seek range projection t).map (credit f gain) := by
  change seek range projection s = (seek range projection t).map (credit f gain)
  simp only [seek, hsource, hfilter, hmax, hstats]
  let placed : Sieve σ := { t with range, projection, finished := false }
  apply Outcome.andThen_map
  · exact fun source => settled_credit h gain (placed.withSource source)
  · exact fun source => rfl

theorem commutes_credit : Cursor.Commutes (credit f gain) where
  size s := h.size s.source
  top? s := top?_credit h gain s
  seek range projection s := seek_eq_map h gain (h.seek range projection s.source) rfl rfl rfl
  advance s := by
    change advance (s.credit f gain) = (advance s).map (credit f gain)
    rw [advance, advance, top?_credit h gain]
    cases top? s with
    | none => rfl
    | some record =>
      simp only [source_credit, h.advance]
      apply Outcome.andThen_map
      · exact fun source => settled_credit h gain (s.withSource source)
      · exact fun source => rfl

omit h in
theorem credit_fork {s : Sieve σ} (hsource : f (Cursor.fork s.source) = s.source) :
    (Cursor.fork s).credit f s.stats = s := by
  change ({ s with source := f (Cursor.fork s.source) } : Sieve σ) = s
  rw [hsource]

end Sieve

/-! ### Rollups -/

namespace Rollup

variable {σ : Type} {f : σ → σ}

def credit (f : σ → σ) (gain : Stats) (s : Rollup σ) : Rollup σ :=
  { s with source := f s.source, stats := gain + s.stats }

@[simp] theorem source_credit (gain : Stats) (s : Rollup σ) :
    (s.credit f gain).source = f s.source := rfl

@[simp] theorem combiner_credit (gain : Stats) (s : Rollup σ) :
    (s.credit f gain).combiner = s.combiner := rfl

theorem countInput_credit (gain : Stats) (s : Rollup σ) (key : Key) :
    (s.credit f gain).countInput key = (s.countInput key).credit f gain := by
  have hstats := Stats.add_assoc gain s.stats
    ⟨0, 1, if key.parts.isRaw then 1 else 0, if key.parts.isRaw then 0 else 1, 0⟩
  exact congrArg (fun stats => { s with source := f s.source, stats }) hstats

theorem present_credit (gain : Stats) (s : Rollup σ) (records : List Record) :
    (s.credit f gain).present records = (s.present records).credit f gain := by
  have hstats := Stats.add_assoc gain s.stats ⟨0, 0, 0, 0, if records.isEmpty then 0 else 1⟩
  exact congrArg (fun stats => { s with source := f s.source, pending := records, stats }) hstats

variable [Cursor σ] (h : Cursor.Commutes f) (gain : Stats)
include h

theorem gather_credit (steps : Nat) (group : Group) (s : Rollup σ) :
    gather steps group (s.credit f gain) =
      ((gather steps group s).1.credit f gain, (gather steps group s).2) := by
  induction steps generalizing group s with
  | zero => rfl
  | succ steps ih =>
    simp only [gather, source_credit, h.top?]
    cases Cursor.top? s.source with
    | none => rfl
    | some record =>
      obtain ⟨key, value⟩ := record
      simp only
      split
      · cases Record.counts (key, value) with
        | error e => rfl
        | ok counts =>
          simp only [countInput_credit, source_credit, h.advance]
          cases Cursor.advance (s.countInput key).source with
          | failed e source => rfl
          | done source => exact ih (group.add key counts) { s.countInput key with source }
      · rfl

theorem nextGroup_credit (s : Rollup σ) :
    nextGroup (s.credit f gain) = (nextGroup s).map (credit f gain) := by
  simp only [nextGroup, source_credit, h.top?, h.size, gather_credit h gain]
  cases Cursor.top? s.source with
  | none => rfl
  | some record =>
    simp only
    generalize gather (Cursor.size s.source + 1) (.ofKey record.1) s = read
    obtain ⟨read, group⟩ := read
    cases group with
    | error e => rfl
    | ok group =>
      simp only [combiner_credit]
      cases group.records read.combiner with
      | error e => rfl
      | ok records => exact congrArg Outcome.done (present_credit gain read.countGroup records)

theorem seek_eq_map {range : Range} {projection : Projection} {s t : Rollup σ}
    (hsource : Cursor.seek range.widened projection s.source =
      (Cursor.seek range.widened projection t.source).map f)
    (hcombiner : s.combiner = t.combiner) (hstats : s.stats = gain + t.stats) :
    Cursor.seek range projection s = (Cursor.seek range projection t).map (credit f gain) := by
  change seek range projection s = (seek range projection t).map (credit f gain)
  simp only [seek, hsource, hcombiner, hstats]
  apply Outcome.andThen_map
  · exact fun source => nextGroup_credit h gain { t with pending := [], source }
  · exact fun source => rfl

theorem commutes_credit : Cursor.Commutes (credit f gain) where
  size s := h.size s.source
  top? _ := rfl
  seek range projection s := seek_eq_map h gain (h.seek range.widened projection s.source) rfl rfl
  advance s := by
    change advance (s.credit f gain) = (advance s).map (credit f gain)
    rw [advance, advance, show (s.credit f gain).pending = s.pending from rfl]
    match s.pending with
    | [] => rfl
    | [_] => exact nextGroup_credit h gain { s with pending := [] }
    | _ :: next :: rest => exact congrArg Outcome.done (present_credit gain s (next :: rest))

omit h in
theorem credit_fork {s : Rollup σ} (hsource : f (Cursor.fork s.source) = s.source) :
    (Cursor.fork s).credit f s.stats = s := by
  change ({ s with source := f (Cursor.fork s.source) } : Rollup σ) = s
  rw [hsource]

end Rollup

/-! ### Stacks -/

namespace Stack

/-- A stack whose layers have counted more, each by what the same layer of another has counted. -/
def credit : (layers : List Layer) → Stack layers → Stack layers → Stack layers
  | [], (base : Store), (s : Store) => s.credit base.stats
  | .sieve .. :: below, (base : Sieve (Stack below)), (s : Sieve (Stack below)) =>
    s.credit (credit below base.source) base.stats
  | .rollup _ :: below, (base : Rollup (Stack below)), (s : Rollup (Stack below)) =>
    s.credit (credit below base.source) base.stats

theorem commutes_credit (layers : List Layer) (base : Stack layers) :
    Cursor.Commutes (credit layers base) := by
  induction layers with
  | nil => exact Store.commutes_credit (Store.stats base)
  | cons layer below ih =>
    cases layer with
    | sieve => exact Sieve.commutes_credit (ih (Sieve.source base)) (Sieve.stats base)
    | rollup => exact Rollup.commutes_credit (ih (Rollup.source base)) (Rollup.stats base)

theorem stats_credit (layers : List Layer) (base s : Stack layers) :
    stats layers (credit layers base s) =
      (stats layers base).zipWith LayerStats.plus (stats layers s) := by
  induction layers with
  | nil => rfl
  | cons layer below ih =>
    cases layer with
    | sieve => exact congrArg (List.cons _) (ih (Sieve.source base) (Sieve.source s))
    | rollup => exact congrArg (List.cons _) (ih (Rollup.source base) (Rollup.source s))

/-- A state is its fork with all that it has counted. -/
theorem credit_fork (layers : List Layer) (s : Stack layers) :
    credit layers s (Cursor.fork s) = s := by
  induction layers with
  | nil => rfl
  | cons layer below ih =>
    cases layer with
    | sieve => exact Sieve.credit_fork (ih (Sieve.source s))
    | rollup => exact Rollup.credit_fork (ih (Rollup.source s))

theorem plus_stats_ofData (data : OrderedMap Key Bytes) (layers : List Layer) (s : Stack layers) :
    (stats layers (ofData data layers)).zipWith LayerStats.plus (stats layers s) =
      stats layers s := by
  induction layers with
  | nil => exact congrArg (fun stats => [LayerStats.store stats]) (Store.Stats.zero_add _)
  | cons layer below ih =>
    cases layer with
    | sieve =>
      have hown := Sieve.Stats.zero_add (Sieve.stats s)
      exact congrArg₂ List.cons (congrArg (LayerStats.sieve _) hown) (ih (Sieve.source s))
    | rollup =>
      have hown := Rollup.Stats.zero_add (Rollup.stats s)
      exact congrArg₂ List.cons (congrArg (LayerStats.rollup _) hown) (ih (Rollup.source s))

end Stack

end DatedCounts
