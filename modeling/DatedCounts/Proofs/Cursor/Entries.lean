import DatedCounts.Proofs.Cursor.Ascent

/-!
# Reading entry by entry

A reader asks a positioned cursor for one record after the other, and moves it on only when it is called
again. A scan moves on as soon as it has looked at a record. From a cursor that reads some records up to
its end or up to an error the reader yields just these records and that error, and nothing for ever
after.
-/

namespace DatedCounts

namespace Entries

variable {σ : Type} [Cursor σ]

def after (entries : Entries σ) : Nat → Entries σ
  | 0 => entries
  | n + 1 => entries.next.2.after n

/-- What the call after so many others yields. -/
def yielded (entries : Entries σ) (n : Nat) : Option (Except Error Record) :=
  (entries.after n).next.1

theorem next_of_ended (cursor : σ) (started : Bool) :
    (⟨cursor, started, true⟩ : Entries σ).next = (none, ⟨cursor, started, true⟩) := rfl

theorem after_of_ended (cursor : σ) (started : Bool) (n : Nat) :
    (⟨cursor, started, true⟩ : Entries σ).after n = ⟨cursor, started, true⟩ := by
  induction n with
  | zero => rfl
  | succ n ih => exact ih

theorem yielded_of_ended (cursor : σ) (started : Bool) (n : Nat) :
    (⟨cursor, started, true⟩ : Entries σ).yielded n = none := by
  rw [yielded, after_of_ended, next_of_ended]

theorem present_of_none {s : σ} (htop : Cursor.top? s = none) :
    present s = (none, ⟨s, true, true⟩) := by
  rw [present, htop]

theorem present_of_some {s : σ} {record : Record} (htop : Cursor.top? s = some record) :
    present s = (some (.ok record), ⟨s, true, false⟩) := by
  rw [present, htop]

theorem next_of_done {s s' : σ} (hmove : Cursor.advance s = .done s') :
    (⟨s, true, false⟩ : Entries σ).next = present s' := by
  simp only [next, hmove]
  rfl

theorem next_of_failed {s s' : σ} {e : Error} (hmove : Cursor.advance s = .failed e s') :
    (⟨s, true, false⟩ : Entries σ).next = (some (.error e), ⟨s', true, true⟩) := by
  simp only [next, hmove]
  rfl

/-- The entries that a reader owes: the records and the error behind them, if there is one. -/
def due (records : List Record) (fault : Option Error) : List (Except Error Record) :=
  records.map .ok ++ fault.toList.map .error

/-- What a call yields and the calls after it, from a cursor that reads some records. -/
theorem present_yields {s : σ} {records : List Record} {fault : Option Error}
    (h : Cursor.Reads s records fault) :
    (present s).1 = (due records fault).head? ∧
      ∀ n, (present s).2.yielded n = (due records fault).tail[n]? := by
  induction h with
  | ended htop =>
    rw [present_of_none htop]
    exact ⟨rfl, fun n => yielded_of_ended _ _ n⟩
  | failed htop hmove =>
    rw [present_of_some htop]
    refine ⟨rfl, fun n => ?_⟩
    cases n with
    | zero => exact congrArg Prod.fst (next_of_failed hmove)
    | succ n =>
      rw [yielded, after, next_of_failed hmove, ← yielded, yielded_of_ended]
      rfl
  | @next s s' record records fault htop hmove _ ih =>
    rw [present_of_some htop]
    refine ⟨rfl, fun n => ?_⟩
    -- The call after the record presents what the advance leads to, and the rest follows from there.
    change _ = (due records fault)[n]?
    cases n with
    | zero =>
      rw [← List.head?_eq_getElem?, ← ih.1]
      exact congrArg Prod.fst (next_of_done hmove)
    | succ n =>
      rw [yielded, after, next_of_done hmove, ← yielded, ih.2, List.getElem?_tail]

/-- A new reader yields the records that its cursor reads, and the error that ends them. -/
theorem yielded_eq {s : σ} {records : List Record} {fault : Option Error}
    (h : Cursor.Reads s records fault) (n : Nat) :
    (ofCursor s).yielded n = (due records fault)[n]? := by
  obtain ⟨hfirst, hlater⟩ := present_yields h
  cases n with
  | zero =>
    rw [← List.head?_eq_getElem?, ← hfirst]
    rfl
  | succ n =>
    rw [← List.getElem?_tail, ← hlater]
    rfl

theorem present_leaves_none {s : σ} {records : List Record} (h : Cursor.Reads s records none) {n : Nat}
    (hn : records.length ≤ n) : Cursor.top? ((present s).2.after n).cursor = none := by
  generalize hfault : none = fault at h
  induction h generalizing n with
  | ended htop =>
    rw [present_of_none htop, after_of_ended]
    exact htop
  | failed => cases hfault
  | next htop hmove _ ih =>
    obtain ⟨n, rfl⟩ := Nat.exists_eq_add_of_le' hn
    rw [present_of_some htop, List.length_cons, ← Nat.add_assoc, after, next_of_done hmove]
    exact ih (Nat.le_add_left _ _) hfault

theorem top?_after {s : σ} {records : List Record} (h : Cursor.Reads s records none) {n : Nat}
    (hn : records.length < n) : Cursor.top? ((ofCursor s).after n).cursor = none := by
  obtain ⟨n, rfl⟩ := Nat.exists_eq_add_of_le' hn
  exact present_leaves_none h (Nat.le_add_left _ _)

end Entries

namespace Stack

/-- Whatever was called before, a reader of a stack agrees with a scan of it. If the seek fails, the scan
fails with its error. If not, the reader yields some records and then nothing for ever, just when the scan
comes to these records, or it yields an error behind them and then nothing for ever, just when the scan
comes to that error. Once it has ended without an error, the stack stands on no record. -/
theorem entries_agree {layers : List Layer} (hlayers : ∀ layer ∈ layers, layer.IsValid)
    (data : OrderedMap Key Bytes) (calls : List Cursor.Call) (range : Range) :
    let s := Cursor.after (ofData data layers) calls
    let scanned := (Cursor.collect range s).2
    match Cursor.seek range .everything s with
    | .failed e _ => scanned = .error e
    | .done top =>
      let entries := Entries.ofCursor top
      ∃ records fault,
        (∀ n, entries.yielded n = (Entries.due records fault)[n]?) ∧
        (∀ out, scanned = .ok out ↔ fault = none ∧ out = records) ∧
        (∀ e, scanned = .error e ↔ fault = some e) ∧
        (fault = none → ∀ n, records.length < n → Cursor.top? (entries.after n).cursor = none) := by
  intro s scanned
  have hclimbing := climbing hlayers
  have hs : Climbs layers s := hclimbing.after (climbs_ofData data hlayers) calls
  obtain ⟨records, fault, hopens, hlength⟩ := hclimbing.exists_opens hs range .everything
  have hscanned : scanned = Cursor.result records fault := Cursor.collect_eq hopens hlength
  cases hseek : Cursor.seek range .everything s with
  | failed e s' =>
    rw [hseek] at hopens
    obtain ⟨rfl, rfl⟩ := hopens
    exact hscanned
  | done top =>
    rw [hseek] at hopens
    refine ⟨records, fault, Entries.yielded_eq hopens, fun out => ?_, fun e => ?_, ?_⟩
    · rw [hscanned]
      cases fault <;> simp [Cursor.result, eq_comm]
    · rw [hscanned]
      cases fault <;> simp [Cursor.result]
    · rintro rfl n hn
      exact Entries.top?_after hopens hn

/-- A sieve for days of 2020, which jumps past the others. -/
def yearOnly : List Layer := [.sieve Sieve.yearFilter 0]

theorem entries_agree_trailed :
    (∀ layer ∈ yearOnly, layer.IsValid) ∧
    let s := Cursor.after (ofData Sieve.trailed yearOnly) [.advance]
    let scanned := (Cursor.collect .all s).2
    scanned = .error (.noSeparator [98]) ∧
    ∃ top, Cursor.seek .all .everything s = .done top ∧
      let entries := Entries.ofCursor top
      ∃ records fault,
        (∀ n, entries.yielded n = (Entries.due records fault)[n]?) ∧
        (∀ out, scanned = .ok out ↔ fault = none ∧ out = records) ∧
        (∀ e, scanned = .error e ↔ fault = some e) ∧
        (fault = none → ∀ n, records.length < n → Cursor.top? (entries.after n).cursor = none) := by
  have hvalid : ∀ layer ∈ yearOnly, layer.IsValid := by
    intro layer hlayer
    obtain rfl := List.mem_singleton.1 hlayer
    exact ⟨Sieve.year, Sieve.ofConfig_year⟩
  exact ⟨hvalid, rfl, _, rfl, entries_agree hvalid Sieve.trailed [.advance] .all⟩

end Stack

end DatedCounts
