import DatedCounts.Key.Range
import DatedCounts.Proofs.Key.Boundary

/-!
# Least bounds

A boundary key is not just above the keys that it bounds but the least key that is. Below it lie those keys
and what is below the first of them, and nothing else, so a reader that goes on from there neither meets
one of them again nor passes over a key behind them. The least string above the extensions of a string has
the same property among strings, and the range of a row has just the keys of the row in it.
-/

namespace DatedCounts

section Bounds

variable {α : Type*} [Ord α] {p : α → Prop} {first bound other : α}

def LiesAbove (p : α → Prop) (bound : α) : Prop := ∀ x, p x → compare x bound = .lt

/-- Whether a bound is the least of those that lie above everything with a property. -/
structure IsLeastAbove (p : α → Prop) (bound : α) : Prop where
  above : LiesAbove p bound
  least : ∀ other, LiesAbove p other → (compare bound other).isLE

/-- Whether something has a property and lies at or below everything else that has it. -/
structure IsFirst (p : α → Prop) (first : α) : Prop where
  mem : p first
  least : ∀ x, p x → (compare first x).isLE

variable [Std.TransOrd α]

theorem isLeastAbove_of_lt_iff (hfirst : p first)
    (hbelow : ∀ x, compare x bound = .lt ↔ compare x first = .lt ∨ p x) : IsLeastAbove p bound := by
  refine ⟨fun x hx => (hbelow x).2 (.inr hx), fun other habove => ?_⟩
  by_contra hnot
  have hlt : compare other bound = .lt := Std.OrientedCmp.lt_of_not_isLE hnot
  rcases (hbelow other).1 hlt with hless | hmem
  · exact Std.OrientedCmp.not_lt_of_lt (habove first hfirst) hless
  · exact Std.OrientedCmp.not_lt_of_lt (habove other hmem) (habove other hmem)

theorem IsLeastAbove.unique [Std.LawfulEqOrd α] (hbound : IsLeastAbove p bound)
    (hother : IsLeastAbove p other) : bound = other :=
  Std.compare_eq_iff_eq.1 (Std.OrientedCmp.isLE_antisymm (hbound.least other hother.above)
    (hother.least bound hbound.above))

end Bounds

namespace Bytes

theorem not_liesAbove_of_all {bytes : Bytes} (h : ∀ byte ∈ bytes, byte = 255) (bound : Bytes) :
    ¬ LiesAbove (bytes <+: ·) bound := by
  intro habove
  rcases lt_or_prefix_of_all h bound with hlt | hextends
  · exact Std.OrientedCmp.not_lt_of_lt (habove bytes (List.prefix_refl bytes)) hlt
  · exact Std.OrientedCmp.not_lt_of_lt (habove bound hextends) (habove bound hextends)

theorem isLeastAbove_of_pastExtensions? {bytes past : Bytes} (h : bytes.pastExtensions? = some past) :
    IsLeastAbove (bytes <+: ·) past :=
  isLeastAbove_of_lt_iff (List.prefix_refl bytes) (lt_pastExtensions_iff h)

theorem pastExtensions?_eq_some_iff {bytes past : Bytes} :
    bytes.pastExtensions? = some past ↔ IsLeastAbove (bytes <+: ·) past := by
  refine ⟨isLeastAbove_of_pastExtensions?, fun hleast => ?_⟩
  cases hpast : bytes.pastExtensions? with
  | none =>
    exact absurd hleast.above (not_liesAbove_of_all (eq_of_pastExtensions?_eq_none hpast) past)
  | some found => rw [(isLeastAbove_of_pastExtensions? hpast).unique hleast]

example : pastExtensions? [97, 254, 255] = some [97, 255] := by decide

theorem pastExtensions?_eq_none_iff {bytes : Bytes} :
    bytes.pastExtensions? = none ↔ ¬ ∃ bound, LiesAbove (bytes <+: ·) bound := by
  constructor
  · rintro hnone ⟨bound, habove⟩
    exact not_liesAbove_of_all (eq_of_pastExtensions?_eq_none hnone) bound habove
  · intro hnot
    cases hpast : bytes.pastExtensions? with
    | none => rfl
    | some past => exact absurd ⟨past, (isLeastAbove_of_pastExtensions? hpast).above⟩ hnot

end Bytes

namespace Key

def InFamily (row family : Bytes) (key : Key) : Prop := key.row = row ∧ key.family = family

/-- A bound on qualifiers carries over to the first keys of their cells. -/
theorem lt_firstOf_iff_or {key : Key} {row family start past : Bytes}
    (h : ∀ qualifier : Bytes,
      compare qualifier past = .lt ↔ compare qualifier start = .lt ∨ start <+: qualifier) :
    compare key (firstOf row family past) = .lt ↔ compare key (firstOf row family start) = .lt ∨
      key.InFamily row family ∧ start <+: key.qualifier := by
  rw [lt_firstOf_iff, lt_firstOf_iff]
  simp only [Ordering.then_eq_lt, Std.compare_eq_iff_eq, h, InFamily]
  tauto

theorem lt_pastQualifiers_iff {key : Key} {row family start : Bytes} :
    compare key (pastQualifiers row family start) = .lt ↔
      compare key (firstOf row family start) = .lt ∨
        key.InFamily row family ∧ start <+: key.qualifier := by
  rw [pastQualifiers]
  cases hpast : start.pastExtensions? with
  | some past => exact lt_firstOf_iff_or (Bytes.lt_pastExtensions_iff hpast)
  | none =>
    -- No qualifier of the family is above the run, so the whole family ends with it.
    have hrun := Bytes.lt_or_prefix_of_all (Bytes.eq_of_pastExtensions?_eq_none hpast) key.qualifier
    rw [lt_pastFamily_iff, lt_firstOf_iff, Ordering.isLE_iff_eq_lt_or_eq_eq, Ordering.then_eq_lt,
      Ordering.then_eq_eq, Ordering.then_eq_lt, Ordering.then_eq_lt, Std.compare_eq_iff_eq,
      Std.compare_eq_iff_eq, InFamily]
    tauto

theorem isLeastAbove_pastQualifiers (row family start : Bytes) :
    IsLeastAbove (fun key : Key => key.InFamily row family ∧ start <+: key.qualifier)
      (pastQualifiers row family start) :=
  have hfirst : (firstOf row family start).InFamily row family ∧
      start <+: (firstOf row family start).qualifier := ⟨⟨rfl, rfl⟩, List.prefix_refl start⟩
  isLeastAbove_of_lt_iff hfirst fun _ => lt_pastQualifiers_iff

/-- A family is the run of all its qualifiers, and no string is above them all. -/
theorem isLeastAbove_pastFamily (row family : Bytes) :
    IsLeastAbove (InFamily row family) (pastFamily row family) := by
  have hrun : IsLeastAbove (fun key : Key => key.InFamily row family ∧ [] <+: key.qualifier)
      (pastFamily row family) := isLeastAbove_pastQualifiers row family []
  simpa only [List.nil_prefix, and_true] using hrun

theorem isFirst_firstOf (row family qualifier : Bytes) :
    IsFirst (fun key : Key => key.InFamily row family ∧ key.qualifier = qualifier)
      (firstOf row family qualifier) := by
  refine ⟨⟨⟨rfl, rfl⟩, rfl⟩, ?_⟩
  rintro key ⟨⟨hrow, hfamily⟩, hqualifier⟩
  by_contra hnot
  have hlt := lt_firstOf_iff.1 (Std.OrientedCmp.lt_of_not_isLE hnot)
  rw [hrow, hfamily, hqualifier] at hlt
  simp at hlt

theorem lt_firstOf_row_iff {key : Key} {row : Bytes} :
    compare key (firstOf row [] []) = .lt ↔ compare key.row row = .lt := by
  have hfamily : compare key.family [] ≠ .lt := Bytes.compare_nil_ne_lt _
  have hqualifier : compare key.qualifier [] ≠ .lt := Bytes.compare_nil_ne_lt _
  simp only [lt_firstOf_iff, Ordering.then_eq_lt]
  tauto

end Key

theorem Range.contains_ofRow_iff {row : Bytes} {key : Key} :
    (ofRow row).contains key ↔ key.row = row := by
  rw [contains, Bool.and_eq_true, afterStart, beforeEnd]
  simp only [ofRow, Ordering.isGE_iff_ne_lt, Ordering.isLT_iff_eq_lt, Key.lt_firstOf_row_iff,
    Bytes.compare_append_zero]
  constructor
  · rintro ⟨hge, hle⟩
    exact Std.compare_eq_iff_eq.1 ((Ordering.isLE_iff_eq_lt_or_eq_eq.1 hle).resolve_left hge)
  · rintro rfl
    simp

/-- The key past a family is the least key above the keys of the family, and the key past a run of its
qualifiers the least above the keys of the run, whatever the run begins with. The least string above the
extensions of a string is found if there is one. The first key of a cell is the least of its keys, and the
range of a row has the keys of the row in it and no others. -/
theorem bounds_tight (row family start : Bytes) :
    IsLeastAbove (fun key : Key => key.InFamily row family) (Key.pastFamily row family) ∧
    IsLeastAbove (fun key : Key => key.InFamily row family ∧ start <+: key.qualifier)
      (Key.pastQualifiers row family start) ∧
    (∀ past, start.pastExtensions? = some past ↔ IsLeastAbove (start <+: ·) past) ∧
    (start.pastExtensions? = none ↔ ¬ ∃ bound, LiesAbove (start <+: ·) bound) ∧
    (∀ qualifier, IsFirst (fun key : Key => key.InFamily row family ∧ key.qualifier = qualifier)
      (Key.firstOf row family qualifier)) ∧
    ∀ key, (Range.ofRow row).contains key ↔ key.row = row :=
  ⟨Key.isLeastAbove_pastFamily row family, Key.isLeastAbove_pastQualifiers row family start,
    fun _ => Bytes.pastExtensions?_eq_some_iff, Bytes.pastExtensions?_eq_none_iff,
    Key.isFirst_firstOf row family, fun _ => Range.contains_ofRow_iff⟩

end DatedCounts
