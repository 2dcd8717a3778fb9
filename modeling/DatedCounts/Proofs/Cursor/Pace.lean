import DatedCounts.Proofs.Cursor.Sifting
import DatedCounts.Proofs.Cursor.Stack
import DatedCounts.Proofs.Filter.Stretch

/-!
# How far a sieve steps before it jumps

A sieve reads the same however far it steps, as long as it does not come upon a record in aggregated
form that a jump passes over. Between a rejected record and its hint the other records are rejected with
the same hint, so a sieve that steps arrives where one that jumps does, or stops at such a record.
-/

namespace DatedCounts

namespace Filter

theorem ofConfig_withoutSteps (config : Config) : ofConfig config.withoutSteps = ofConfig config :=
  rfl

end Filter

namespace Sieve

/-- Whether a key lies between a rejected one of some records and the hint of that rejection. -/
def PassesOver (filter : Filter) (records : List Record) (hint key : Key) : Prop :=
  ∃ rejected ∈ records, filter.check rejected.1 = .ok (.reject hint) ∧
    compare rejected.1 key = .lt ∧ compare key hint = .lt

/-- Whether one of some records is in aggregated form and a jump passes over it. -/
structure Overleapt (filter : Filter) (records : List Record) (record : Record) : Prop where
  mem : record ∈ records
  aggregated : record.1.parts.isRaw = false
  passed : ∃ hint, PassesOver filter records hint record.1

/-- Records that a sieve has ahead, and those that one has ahead that may have jumped on from them. -/
inductive Leads (filter : Filter) (records : List Record) : List Record → List Record → Prop
  | stay (ahead : List Record) : Leads filter records ahead ahead
  | jump {rejected : Record} {hint : Key} {ahead : List Record} (hmem : rejected ∈ records)
      (hcheck : filter.check rejected.1 = .ok (.reject hint))
      (habove : ∀ record ∈ ahead, compare rejected.1 record.1 = .lt) :
      Leads filter records ahead (onward hint ahead)

variable {filter : Filter} {records rest left : List Record} {record : Record} {hint : Key}

theorem Leads.cons (hascending : Ascending (record :: rest))
    (h : Leads filter records (record :: rest) left) :
    left = record :: rest ∨ ∃ hint, PassesOver filter records hint record.1 ∧
      left = onward hint rest ∧ Leads filter records rest left := by
  cases h with
  | stay => exact .inl rfl
  | @jump rejected hint _ hmem hcheck habove =>
    cases hhint : compare record.1 hint with
    | lt =>
      rw [onward_cons_of_lt hhint]
      have hpassed := habove record List.mem_cons_self
      refine .inr ⟨hint, ⟨rejected, hmem, hcheck, hpassed, hhint⟩, rfl, ?_⟩
      exact .jump hmem hcheck fun other hother => habove other (List.mem_cons_of_mem _ hother)
    | eq | gt => exact .inl (onward_eq_self hascending (by simp [hhint]))

section Runs

variable (hnul : ∀ accepted ∈ filter.datatypes.toList, Qualifier.separator ∉ accepted)
include hnul

theorem PassesOver.decision_eq {key : Key} (h : PassesOver filter records hint key)
    {decision : Filter.Decision} (hcheck : filter.check key = .ok decision) :
    decision = .reject hint := by
  obtain ⟨rejected, _, hreject, hbelow, habove⟩ := h
  cases hraw : key.parts.isRaw with
  | false =>
    rw [Filter.check_eq_error_iff.2 ⟨hraw, rfl⟩] at hcheck
    cases hcheck
  | true =>
    have hsame := Filter.check_of_between hnul hreject hraw (Ordering.isLE_of_eq_lt hbelow) habove
    exact Except.ok.inj (hcheck.symm.trans hsame)

/-- A sieve reads what one that always jumps does, or ends at a record in aggregated form that the other
one passes over. -/
theorem reading_eq_or_overleapt (maxNext nexts : Nat) {ahead : List Record}
    (hascending : Ascending ahead) (hmem : ∀ record ∈ ahead, record ∈ records)
    (hleads : Leads filter records ahead left) :
    reading filter maxNext nexts ahead = reading filter 0 0 left ∨
      ∃ record, Overleapt filter records record ∧
        (reading filter maxNext nexts ahead).2 = some (.noSeparator record.1.qualifier) := by
  -- The sieve that jumps is ahead of the other one or level with it, and the other one catches up at the
  -- hint, unless it is refused before.
  fun_induction reading filter maxNext nexts ahead generalizing left with
  | case1 =>
    left
    cases hleads with
    | stay => rw [reading]
    | jump => rw [show onward _ [] = [] from rfl, reading]
  | case2 nexts record rest e hcheck =>
    rcases hleads.cons hascending with rfl | ⟨hint, hpassed, _⟩
    · left
      rw [reading, hcheck]
    · obtain ⟨haggregated, rfl⟩ := Filter.check_eq_error_iff.1 hcheck
      exact .inr ⟨record, ⟨hmem record List.mem_cons_self, haggregated, hint, hpassed⟩, rfl⟩
  | case3 nexts record rest hcheck ih =>
    rcases hleads.cons hascending with rfl | ⟨hint, hpassed, _⟩
    · have hlater := ih hascending.of_cons (fun r hr => hmem r (List.mem_cons_of_mem _ hr))
        (.stay rest)
      refine hlater.imp (fun heq => ?_) id
      rw [reading, hcheck]
      simp only [heq]
    · cases hpassed.decision_eq hnul hcheck
  | case4 nexts record rest hint hcheck hnexts ih =>
    have hrest : ∀ r ∈ rest, r ∈ records := fun r hr => hmem r (List.mem_cons_of_mem _ hr)
    rcases hleads.cons hascending with rfl | ⟨_, _, _, hlater⟩
    · rw [reading.eq_def filter 0 0 (record :: rest)]
      simp only [hcheck, Nat.lt_irrefl, ↓reduceIte]
      exact ih hascending.of_cons hrest (.jump (hmem record List.mem_cons_self) hcheck
        (List.pairwise_cons.1 hascending).1)
    · exact ih hascending.of_cons hrest hlater
  | case5 nexts record rest hint hcheck hnexts ih =>
    have honward : ∀ r ∈ onward hint rest, r ∈ records := fun r hr =>
      hmem r (List.mem_cons_of_mem _ (List.mem_filter.1 hr).1)
    have hjump := ih (hascending.of_cons.filter _) honward (.stay _)
    rcases hleads.cons hascending with rfl | ⟨other, hpassed, rfl, _⟩
    · rw [reading.eq_def filter 0 0 (record :: rest)]
      simp only [hcheck, Nat.lt_irrefl, ↓reduceIte]
      exact hjump
    · cases hpassed.decision_eq hnul hcheck
      exact hjump

end Runs

/-- Two sieves that differ in how far they step before they jump have the same outcome, or one of them
ends with an error at a record in aggregated form that lies between a rejected record and its hint. -/
theorem same_result_or_overleapt {config other : Filter.Config} {filter filter' : Filter}
    (hother : other.withoutSteps = config.withoutSteps) (hfilter : Filter.ofConfig config = .ok filter)
    (hfilter' : Filter.ofConfig other = .ok filter') {data : OrderedMap Key Bytes} (s s' : Sieve Store)
    (hs : s.source.data = data ∧ s.filter = filter ∧ s.maxNext = config.maxNext)
    (hs' : s'.source.data = data ∧ s'.filter = filter' ∧ s'.maxNext = other.maxNext)
    (range : Range) (projection : Projection) :
    ∃ out fault out' fault', Cursor.Opens (Cursor.seek range projection s) out fault ∧
      Cursor.Opens (Cursor.seek range projection s') out' fault' ∧
      (Cursor.result out fault = Cursor.result out' fault' ∨
        ∃ record, Overleapt filter (Store.within data range projection) record ∧
          (fault = some (.noSeparator record.1.qualifier) ∨
            fault' = some (.noSeparator record.1.qualifier))) := by
  have hsame : filter = filter' := by
    rw [← Filter.ofConfig_withoutSteps, hother, Filter.ofConfig_withoutSteps, hfilter] at hfilter'
    exact Except.ok.inj hfilter'
  subst hsame
  have hnul := Filter.separator_notMem_of_mem hfilter
  have hrun := fun maxNext => reading_eq_or_overleapt hnul maxNext 0
    (Store.within_ascending data range projection) (fun _ hr => hr) (.stay _)
  refine ⟨_, _, _, _, opens_seek hnul hs range projection,
    opens_seek hnul hs' range projection, ?_⟩
  rcases hrun config.maxNext with heq | ⟨record, hover, hfault⟩
  · rcases hrun other.maxNext with heq' | ⟨record, hover, hfault⟩
    · left
      rw [heq, heq']
    · exact .inr ⟨record, hover, .inr hfault⟩
  · exact .inr ⟨record, hover, .inl hfault⟩

def mixed : OrderedMap Key Bytes := .ofList
  [(⟨[1], [2], 97 :: 0 :: Utf8.encode "20200615".toList, [], 1⟩, [1]),
    (⟨[1], [2], [97, 97], [], 1⟩, [0]),
    (⟨[1], [2], 98 :: 0 :: Utf8.encode "20200615".toList, [], 1⟩, [2])]

def second (maxNext : Nat) : Filter.Config := ⟨.ofList [[98]], some "20200101", some "20201231", maxNext⟩

theorem same_result_or_overleapt_mixed : ∃ filter, Filter.ofConfig (second 0) = .ok filter ∧
    Filter.ofConfig (second 1) = .ok filter ∧ (second 1).withoutSteps = (second 0).withoutSteps ∧
    ∃ out fault out' fault',
      Cursor.Opens (Cursor.seek .all .everything (ofSource filter 0 (Store.ofData mixed))) out fault ∧
      Cursor.Opens (Cursor.seek .all .everything (ofSource filter 1 (Store.ofData mixed))) out'
        fault' ∧
      (Cursor.result out fault = Cursor.result out' fault' ∨
        ∃ record, Overleapt filter (Store.within mixed .all .everything) record ∧
          (fault = some (.noSeparator record.1.qualifier) ∨
            fault' = some (.noSeparator record.1.qualifier))) := by
  have hvalid : ∃ filter, Filter.ofConfig (second 0) = .ok filter := ⟨_, rfl⟩
  obtain ⟨filter, hfilter⟩ := hvalid
  have hfilter' : Filter.ofConfig (second 1) = .ok filter := hfilter
  have hsteps : (second 1).withoutSteps = (second 0).withoutSteps := rfl
  exact ⟨filter, hfilter, hfilter', hsteps, same_result_or_overleapt hsteps hfilter hfilter'
    (ofSource filter 0 (Store.ofData mixed)) (ofSource filter 1 (Store.ofData mixed))
    ⟨rfl, rfl, rfl⟩ ⟨rfl, rfl, rfl⟩ .all .everything⟩

/-- A sieve that jumps reads past the record in aggregated form at which one that steps ends. -/
theorem not_same_result : ¬ ∀ (data : OrderedMap Key Bytes) (config other : Filter.Config)
    (filter filter' : Filter), other.withoutSteps = config.withoutSteps →
    Filter.ofConfig config = .ok filter → Filter.ofConfig other = .ok filter' → ∀ range : Range,
      (Cursor.collect range (ofSource filter config.maxNext (Store.ofData data))).2 =
        (Cursor.collect range (ofSource filter' other.maxNext (Store.ofData data))).2 := by
  intro h
  have hsame := h mixed (second 0) (second 1) _ _ rfl rfl rfl .all
  exact absurd hsame (by decide)

end Sieve

end DatedCounts
