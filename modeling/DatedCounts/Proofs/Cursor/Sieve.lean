import DatedCounts.Cursor.Sieve
import DatedCounts.Proofs.Cursor.Serving
import DatedCounts.Proofs.Filter.Hint

/-!
# What a sieve serves

Over a source that serves the records of some data, a sieve serves those of them that its filter accepts.
While it settles, the source shows an end of the content of the sieve's range: a step takes one record
off that end, a jump to a hint drops the records before the hint, and neither drops an accepted record.
-/

namespace DatedCounts

namespace Sieve

variable {σ : Type} [Cursor σ] {P : σ → Prop} {filter : Filter} {maxNext : Nat}

/-! ### What a sieve keeps -/

private abbrev Keeps (P : σ → Prop) (filter : Filter) (maxNext : Nat) (s : Sieve σ) : Prop :=
  P s.source ∧ s.filter = filter ∧ s.maxNext = maxNext

private theorem settle_keeps (hP : Cursor.Kept P) (steps nexts : Nat) {s : Sieve σ}
    (h : Keeps P filter maxNext s) : Keeps P filter maxNext (settle steps nexts s).state := by
  induction steps generalizing nexts s with
  | zero => exact h
  | succ steps ih =>
    rw [settle]
    split
    · exact h
    · split
      · exact h
      · exact h
      · next hint _ =>
        simp only
        split
        · apply Outcome.state_andThen (hP.advance h.1)
          · exact fun source hsource => ih (nexts + 1) ⟨hsource, h.2⟩
          · exact fun source hsource => ⟨hsource, h.2⟩
        · split
          · apply Outcome.state_andThen (hP.seek (s.range.resumeAt hint) s.projection h.1)
            · exact fun source hsource => ih 0 ⟨hsource, h.2⟩
            · exact fun source hsource => ⟨hsource, h.2⟩
          · exact h

theorem advance_of_top {s : Sieve σ} {record : Record} (h : Cursor.top? s = some record) :
    Cursor.advance s =
      (Cursor.advance s.source).andThen (settled <| s.withSource ·) s.withSource := by
  change advance s = _
  rw [advance, show s.top? = some record from h]

theorem kept (hP : Cursor.Kept P) (filter : Filter) (maxNext : Nat) :
    Cursor.Kept fun s : Sieve σ => P s.source ∧ s.filter = filter ∧ s.maxNext = maxNext where
  seek {s} range projection h := by
    apply Outcome.state_andThen (Q := Keeps P filter maxNext) (hP.seek range projection h.1)
    · exact fun source hsource => settle_keeps hP _ 0 ⟨hsource, h.2⟩
    · exact fun source hsource => ⟨hsource, h.2⟩
  advance {s} h := by
    change Keeps P filter maxNext (advance s).state
    rw [advance]
    split
    · exact h
    · apply Outcome.state_andThen (hP.advance h.1)
      · exact fun source hsource => settle_keeps hP _ 0 ⟨hsource, h.2⟩
      · exact fun source hsource => ⟨hsource, h.2⟩
  fork h := ⟨hP.fork h.1, h.2⟩

instance [Cursor.Sized σ] : Cursor.Sized (Sieve σ) where
  kept n := {
    seek := fun {s} range projection h =>
      ((kept (Cursor.Sized.kept n) s.filter s.maxNext).seek range projection ⟨h, rfl, rfl⟩).1
    advance := fun {s} h =>
      ((kept (Cursor.Sized.kept n) s.filter s.maxNext).advance ⟨h, rfl, rfl⟩).1
    fork := fun {s} h => ((kept (Cursor.Sized.kept n) s.filter s.maxNext).fork ⟨h, rfl, rfl⟩).1 }

/-! ### Jumps -/

section Jumps

variable {passed rest : List Record} {record : Record} {hint : Key}

private theorem filter_isGE (hrecords : Ascending (passed ++ record :: rest))
    (habove : compare record.1 hint = .lt) :
    ((passed ++ record :: rest).filter fun r => (compare r.1 hint).isGE) =
      rest.filter fun r => (compare r.1 hint).isGE := by
  obtain ⟨_, _, hpassed⟩ := List.pairwise_append.1 hrecords
  have hbelow : ∀ r ∈ passed ++ [record], compare r.1 hint = .lt := by
    intro r hr
    rcases List.mem_append.1 hr with hr | hr
    · exact Std.TransCmp.lt_trans (hpassed r hr record List.mem_cons_self) habove
    · rw [List.mem_singleton.1 hr]
      exact habove
  rw [← List.singleton_append, ← List.append_assoc, List.filter_append, List.filter_eq_nil_iff.2]
  · rfl
  · intro r hr
    rw [hbelow r hr]
    decide

private theorem filter_isGE_suffix (hint : Key) {records : List Record} (hrecords : Ascending records) :
    (records.filter fun r => (compare r.1 hint).isGE) <:+ records := by
  rw [← dropWhile_eq_filter]
  · exact List.dropWhile_suffix _
  · refine hrecords.imp fun {a b} hlt hge => ?_
    exact Std.OrientedCmp.isGE_of_isLE (Std.TransCmp.isLE_trans (Std.OrientedCmp.isLE_of_isGE hge)
      (Ordering.isLE_of_eq_lt hlt))

private theorem filter_accepts_cons (hrejected : ¬ filter.accepts record.1) :
    ((record :: rest).filter fun r => filter.accepts r.1) = rest.filter fun r => filter.accepts r.1 :=
  List.filter_cons_of_neg hrejected

private theorem filter_accepts_of_skips (hrecords : Ascending (record :: rest))
    (hskips : filter.Skips record.1 hint) :
    ((rest.filter fun r => (compare r.1 hint).isGE).filter fun r => filter.accepts r.1) =
      (record :: rest).filter fun r => filter.accepts r.1 := by
  rw [List.filter_filter, filter_accepts_cons (hskips.rejects record.1 Std.ReflCmp.isLE_rfl hskips.above)]
  refine List.filter_congr fun r hr => ?_
  cases hge : (compare r.1 hint).isGE with
  | true => rw [Bool.and_true]
  | false =>
    have hlt := (List.pairwise_cons.1 hrecords).1 r hr
    have hbelow : compare r.1 hint = .lt := by
      rw [Bool.eq_false_iff, ne_eq, Ordering.isGE_iff_ne_lt, Decidable.not_not] at hge
      exact hge
    have hrejects := hskips.rejects r.1 (Ordering.isLE_of_eq_lt hlt) hbelow
    rw [Bool.and_false, Bool.eq_false_iff.2 hrejects]

variable {data : OrderedMap Key Bytes} {keeps : Key → Bool} {range : Range} {projection : Projection}

/-- Past a record, a jump leads to an end of what lies behind the record. -/
theorem content_resumeAt
    (hsuffix : (record :: rest) <:+ Cursor.content data keeps range projection)
    (habove : compare record.1 hint = .lt) :
    Cursor.content data keeps (range.resumeAt hint) projection =
        (rest.filter fun r => (compare r.1 hint).isGE) ∧
      (rest.filter fun r => (compare r.1 hint).isGE) <:+ Cursor.content data keeps range projection ∧
      (Cursor.RawWithin data range projection →
        Cursor.RawWithin data (range.resumeAt hint) projection) := by
  have hascending := Cursor.content_ascending data keeps range projection
  have hmem := (List.mem_filter.1 (hsuffix.mem List.mem_cons_self)).1
  have hstart : range.afterStart hint := by
    have hcontains := (Store.mem_within.1 hmem).2.1
    rw [Range.contains, Bool.and_eq_true] at hcontains
    exact Range.afterStart_of_isLE (Ordering.isLE_of_eq_lt habove) hcontains.1
  have hwithin := Store.within_resumeAt data projection hstart
  have hcontent : Cursor.content data keeps (range.resumeAt hint) projection =
      (Cursor.content data keeps range projection).filter fun r => (compare r.1 hint).isGE := by
    rw [Cursor.content, Cursor.content, hwithin, List.filter_filter, List.filter_filter]
    simp only [Bool.and_comm]
  have hends := filter_isGE_suffix hint hascending
  obtain ⟨passed, hpassed⟩ := hsuffix
  rw [← hpassed] at hascending
  have hrest := filter_isGE hascending habove
  rw [hpassed] at hrest
  refine ⟨hcontent.trans hrest, hrest ▸ hends, fun hraw r hr => ?_⟩
  rw [hwithin] at hr
  exact hraw r (List.mem_filter.1 hr).1

private theorem filter_accepts_eq_nil
    (hsuffix : (record :: rest) <:+ Cursor.content data keeps range projection)
    (hskips : filter.Skips record.1 hint) (hend : ¬ range.beforeEnd hint) :
    ((record :: rest).filter fun r => filter.accepts r.1) = [] := by
  have hrecords := (Cursor.content_ascending data keeps range projection).sublist hsuffix.sublist
  rw [← filter_accepts_of_skips hrecords hskips, List.filter_eq_nil_iff]
  intro r hr _
  obtain ⟨hrest, hge⟩ := List.mem_filter.1 hr
  have hmem := (List.mem_filter.1 (hsuffix.mem (List.mem_cons_of_mem _ hrest))).1
  have hcontains := (Store.mem_within.1 hmem).2.1
  rw [Range.contains, Bool.and_eq_true] at hcontains
  exact hend (Range.beforeEnd_of_isLE (Std.OrientedCmp.isLE_of_isGE hge) hcontains.2)

end Jumps

/-! ### Settling -/

variable {data : OrderedMap Key Bytes} {keeps : Key → Bool} {range : Range} {projection : Projection}

/-- A sieve whose source shows an end of the content of its range. -/
private structure Standing (P : σ → Prop) (filter : Filter) (data : OrderedMap Key Bytes)
    (keeps : Key → Bool) (range : Range) (projection : Projection) (ahead : List Record)
    (s : Sieve σ) : Prop where
  source : P s.source
  filter_eq : s.filter = filter
  range_eq : s.range = range
  projection_eq : s.projection = projection
  unfinished : s.finished = false
  shows : Cursor.Shows (Cursor.RawWithin data range projection) ahead s.source
  suffix : ahead <:+ Cursor.content data keeps range projection

/-- A sieve that shows no rejected record, with all accepted records still ahead. -/
private def Settled (P : σ → Prop) (filter : Filter) (data : OrderedMap Key Bytes)
    (keeps : Key → Bool) (range : Range) (projection : Projection) (records : List Record)
    (s : Sieve σ) : Prop :=
  s.finished = true ∧ records = [] ∨
    ∃ ahead, Standing P filter data keeps range projection ahead s ∧
      records = ahead.filter (fun record => filter.accepts record.1) ∧
      ∀ record ∈ ahead.head?, filter.accepts record.1

private theorem Standing.isRaw {ahead : List Record} {s : Sieve σ}
    (h : Standing P filter data keeps range projection ahead s)
    (hsafe : Cursor.RawWithin data range projection) : ∀ record ∈ ahead, record.1.parts.isRaw := by
  intro record hrecord
  exact hsafe record (List.mem_filter.1 (h.suffix.mem hrecord)).1

variable (hserves : Cursor.Serves data keeps P)
  (hnul : ∀ accepted ∈ filter.datatypes.toList, Qualifier.separator ∉ accepted)
include hserves hnul

private theorem settle_meets (steps nexts : Nat) {ahead : List Record} {s : Sieve σ}
    (h : Standing P filter data keeps range projection ahead s) (hsteps : ahead.length < steps) :
    (settle steps nexts s).Meets (Cursor.RawWithin data range projection)
      (Settled P filter data keeps range projection
        (ahead.filter fun record => filter.accepts record.1)) := by
  induction steps generalizing nexts ahead s with
  | zero => cases hsteps
  | succ steps ih =>
    have htop := h.shows.top?_eq
    cases ahead with
    | nil =>
      rw [settle, htop]
      exact .inr ⟨[], h, rfl, by simp⟩
    | cons record rest =>
      obtain ⟨key, value⟩ := record
      rw [settle, htop]
      simp only [List.head?_cons]
      cases hcheck : s.filter.check key with
      | error e =>
        intro hsafe
        have hraw := h.isRaw hsafe (key, value) List.mem_cons_self
        rw [(Filter.check_eq_error_iff.1 hcheck).1] at hraw
        cases hraw
      | ok decision =>
        rw [h.filter_eq] at hcheck
        cases decision with
        | accept =>
          refine .inr ⟨(key, value) :: rest, ?_, rfl, ?_⟩
          · exact { h with }
          · simpa using Filter.accepts_of_accept hcheck
        | reject hint =>
          have hskips := Filter.skips_of_reject hnul hcheck
          simp only
          split
          · rw [filter_accepts_cons (hskips.rejects key Std.ReflCmp.isLE_rfl hskips.above)]
            apply (h.shows.2.and_state (hserves.kept.advance h.source)).andThen
            intro source hsource
            refine ih (nexts + 1) ?_ (Nat.lt_of_succ_lt_succ hsteps)
            exact { h with
              source := hsource.2
              shows := hsource.1
              suffix := (List.suffix_cons _ _).trans h.suffix }
          · rw [h.range_eq, h.projection_eq]
            obtain ⟨hcontent, hsuffix, hraw⟩ := content_resumeAt h.suffix hskips.above
            have hahead :=
              (Cursor.content_ascending data keeps range projection).sublist h.suffix.sublist
            split
            · rw [← filter_accepts_of_skips hahead hskips, ← hcontent]
              have hseek := (hserves.shows h.source (range.resumeAt hint) projection).imp hraw
                (fun _ hshows => hshows.imp hraw)
              apply (hseek.and_state (hserves.kept.seek _ _ h.source)).andThen
              intro source hsource
              refine ih 0 ?_ ?_
              · exact { h with
                  source := hsource.2
                  range_eq := rfl
                  projection_eq := rfl
                  shows := hsource.1
                  suffix := hcontent ▸ hsuffix }
              · rw [hcontent]
                exact Nat.lt_of_le_of_lt (List.length_filter_le _ _) (Nat.lt_of_succ_lt_succ hsteps)
            · next hend => exact .inl ⟨rfl, filter_accepts_eq_nil h.suffix hskips hend⟩

private theorem settled_meets {ahead : List Record} {s : Sieve σ}
    (h : Standing P filter data keeps range projection ahead s) :
    (settled s).Meets (Cursor.RawWithin data range projection)
      (Settled P filter data keeps range projection
        (ahead.filter fun record => filter.accepts record.1)) := by
  apply settle_meets hserves hnul _ _ h
  rw [hserves.size h.source]
  exact Nat.lt_succ_of_le (Nat.le_trans h.suffix.length_le
    (Cursor.length_content_le data keeps range projection))

private theorem Settled.shows {records : List Record} {s : Sieve σ}
    (h : Settled P filter data keeps range projection records s) :
    Cursor.Shows (Cursor.RawWithin data range projection) records s := by
  induction records generalizing s with
  | nil =>
    change s.top? = none
    rw [top?]
    rcases h with ⟨hfinished, _⟩ | ⟨ahead, hstanding, hrecords, hhead⟩
    · rw [if_pos hfinished]
    · rw [hstanding.unfinished, hstanding.shows.top?_eq]
      cases ahead with
      | nil => rfl
      | cons record rest =>
        have haccepts : filter.accepts record.1 := hhead record (by simp)
        simp [haccepts] at hrecords
  | cons first records ih =>
    rcases h with ⟨_, hrecords⟩ | ⟨ahead, hstanding, hrecords, hhead⟩
    · cases hrecords
    · cases ahead with
      | nil => cases hrecords
      | cons record rest =>
        have haccepts : filter.accepts record.1 := hhead record (by simp)
        rw [List.filter_cons_of_pos (by exact haccepts)] at hrecords
        obtain ⟨rfl, rfl⟩ := List.cons.inj hrecords
        have htop : s.top? = some first := by
          rw [top?, hstanding.unfinished, hstanding.shows.top?_eq]
          rfl
        refine ⟨htop, ?_⟩
        rw [advance_of_top htop]
        apply (hstanding.shows.2.and_state (hserves.kept.advance hstanding.source)).andThen
        intro source hsource
        refine (settled_meets hserves hnul ?_).imp id fun _ => ih
        exact { hstanding with
          source := hsource.2
          shows := hsource.1
          suffix := (List.suffix_cons _ _).trans hstanding.suffix }

/-- A sieve serves what its source serves and its filter accepts. -/
theorem serves (maxNext : Nat) :
    Cursor.Serves data (fun key => filter.accepts key && keeps key)
      fun s : Sieve σ => P s.source ∧ s.filter = filter ∧ s.maxNext = maxNext where
  kept := kept hserves.kept filter maxNext
  size h := hserves.size h.1
  shows {s} h range projection := by
    have hcontent : Cursor.content data (fun key => filter.accepts key && keeps key) range projection =
        (Cursor.content data keeps range projection).filter fun record =>
          filter.accepts record.1 := by
      rw [Cursor.content, Cursor.content, List.filter_filter]
    rw [hcontent]
    have hseek := (hserves.shows h.1 range projection).and_state (hserves.kept.seek _ _ h.1)
    apply hseek.andThen
    intro source hsource
    refine (settled_meets hserves hnul ?_).imp id fun _ hsettled => hsettled.shows hserves hnul
    exact {
      source := hsource.2
      filter_eq := h.2.1
      range_eq := rfl
      projection_eq := rfl
      unfinished := rfl
      shows := hsource.1
      suffix := List.suffix_refl _ }

end Sieve

end DatedCounts
