import DatedCounts.Proofs.Key.Series

/-!
# Boundary keys

The boundary keys are tight: what lies below the first key of a cell, below the key past a family or
below the key past a run of qualifiers can be told from the row, the family and the qualifier alone.
-/

namespace DatedCounts

namespace Bytes

theorem compare_cons_eq_lt {x y : UInt8} {a b : Bytes} :
    compare (x :: a) (y :: b) = .lt ↔ x < y ∨ x = y ∧ compare a b = .lt := by
  rw [List.compare_cons_cons, Ordering.then_eq_lt, Std.compare_eq_lt, Std.compare_eq_iff_eq]

theorem compare_cons_isLE {x y : UInt8} {a b : Bytes} :
    (compare (x :: a) (y :: b)).isLE ↔ x < y ∨ x = y ∧ (compare a b).isLE := by
  simp only [Ordering.isLE_iff_eq_lt_or_eq_eq, compare_cons_eq_lt, Std.compare_eq_iff_eq,
    List.cons.injEq]
  grind

theorem compare_nil_ne_lt (bytes : Bytes) : compare bytes [] ≠ .lt := by
  cases bytes <;> simp [List.compare_cons_nil]

theorem compare_append_zero (a b : Bytes) : compare a (b ++ [0]) = .lt ↔ (compare a b).isLE := by
  induction a generalizing b with
  | nil => cases b <;> simp [List.compare_nil_cons]
  | cons x a ih =>
    cases b with
    | nil =>
      rw [List.nil_append, compare_cons_eq_lt, List.compare_cons_nil]
      simp [compare_nil_ne_lt]
    | cons y b => rw [List.cons_append, compare_cons_eq_lt, compare_cons_isLE, ih]

theorem eq_of_pastExtensions?_eq_none {bytes : Bytes} (h : bytes.pastExtensions? = none) :
    ∀ byte ∈ bytes, byte = 255 := by
  induction bytes with
  | nil => simp
  | cons byte rest ih =>
    rw [pastExtensions?] at h
    split at h
    · cases h
    · next hrest =>
      split at h
      · next hbyte => exact List.forall_mem_cons.2 ⟨hbyte, ih hrest⟩
      · cases h

theorem lt_or_prefix_of_all {bytes : Bytes} (h : ∀ byte ∈ bytes, byte = 255) (other : Bytes) :
    compare other bytes = .lt ∨ bytes <+: other := by
  induction bytes generalizing other with
  | nil => exact .inr (List.nil_prefix)
  | cons byte rest ih =>
    obtain ⟨rfl, hrest⟩ := List.forall_mem_cons.1 h
    cases other with
    | nil => exact .inl List.compare_nil_cons
    | cons x other =>
      rw [compare_cons_eq_lt, List.cons_prefix_cons]
      have hx : x < 255 ∨ x = 255 := by
        rw [UInt8.lt_iff_toNat_lt, ← UInt8.toNat_inj]
        have := x.toNat_lt
        simp
        omega
      grind

/-- Below the least string above all extensions lie the extensions and the strings below them. -/
theorem lt_pastExtensions_iff {bytes past : Bytes} (h : bytes.pastExtensions? = some past)
    (other : Bytes) : compare other past = .lt ↔ compare other bytes = .lt ∨ bytes <+: other := by
  induction bytes generalizing past other with
  | nil => cases h
  | cons byte rest ih =>
    rw [pastExtensions?] at h
    split at h
    · next past' hpast =>
      cases h
      cases other with
      | nil => simp [List.compare_nil_cons]
      | cons x other =>
        rw [compare_cons_eq_lt, compare_cons_eq_lt, List.cons_prefix_cons, ih hpast]
        grind
    · next hnone =>
      split at h
      · cases h
      · next hbyte =>
        cases h
        cases other with
        | nil => simp [List.compare_nil_cons]
        | cons x other =>
          have hrest := lt_or_prefix_of_all (eq_of_pastExtensions?_eq_none hnone) other
          have hsucc : x < byte + 1 ↔ x < byte ∨ x = byte := by
            have hbound := byte.toNat_lt
            have hgreatest : byte.toNat ≠ 255 := fun heq => hbyte (UInt8.toNat_inj.1 heq)
            rw [UInt8.lt_iff_toNat_lt, UInt8.lt_iff_toNat_lt, ← UInt8.toNat_inj, UInt8.toNat_add,
              UInt8.toNat_one]
            omega
          rw [compare_cons_eq_lt, compare_cons_eq_lt, List.cons_prefix_cons]
          have := compare_nil_ne_lt other
          grind

end Bytes

namespace Key

theorem not_newest_lt (timestamp : UInt64) : compare newestTimestamp timestamp ≠ .lt := by
  rw [ne_eq, Std.compare_eq_lt, UInt64.lt_iff_toNat_lt]
  have hbound := timestamp.toNat_lt
  have hnewest : newestTimestamp.toNat = 2 ^ 64 - 1 := by decide
  omega

theorem lt_firstOf_iff {key : Key} {row family qualifier : Bytes} :
    compare key (firstOf row family qualifier) = .lt ↔
      (compare key.row row).then ((compare key.family family).then
        (compare key.qualifier qualifier)) = .lt := by
  have hvisibility : compare key.visibility [] ≠ .lt := Bytes.compare_nil_ne_lt _
  have htimestamp := not_newest_lt key.timestamp
  rw [compare_eq]
  simp only [firstOf, Ordering.then_eq_lt]
  grind

/-- Below the key past a family lie just the keys of that family and of those before it. -/
theorem lt_pastFamily_iff {key : Key} {row family : Bytes} :
    compare key (pastFamily row family) = .lt ↔
      ((compare key.row row).then (compare key.family family)).isLE := by
  have hqualifier : compare key.qualifier [] ≠ .lt := Bytes.compare_nil_ne_lt _
  rw [pastFamily, lt_firstOf_iff, Ordering.isLE_then_iff_or]
  simp only [Ordering.then_eq_lt, Bytes.compare_append_zero]
  grind

private theorem family_eq {key other : Key} {o p : Ordering}
    (hle : ((compare key.row other.row).then ((compare key.family other.family).then o)).isLE)
    (hge : ((compare other.row key.row).then ((compare other.family key.family).then p)).isLE) :
    (other.row = key.row ∧ other.family = key.family) ∧ o.isLE ∧ p.isLE := by
  have hrow : other.row = key.row := Std.compare_eq_iff_eq.1 (Std.OrientedCmp.isLE_antisymm
    (Ordering.isLE_left_of_isLE_then hge) (Ordering.isLE_left_of_isLE_then hle))
  rw [hrow, Std.ReflOrd.compare_self, Ordering.eq_then] at hle hge
  have hfamily : other.family = key.family := Std.compare_eq_iff_eq.1 (Std.OrientedCmp.isLE_antisymm
    (Ordering.isLE_left_of_isLE_then hge) (Ordering.isLE_left_of_isLE_then hle))
  rw [hfamily, Std.ReflOrd.compare_self, Ordering.eq_then] at hle hge
  exact ⟨⟨hrow, hfamily⟩, hle, hge⟩

theorem between_firstOf {key other : Key} {qualifier : Bytes} (hle : (compare key other).isLE)
    (hlt : compare other (firstOf key.row key.family qualifier) = .lt) :
    (other.row = key.row ∧ other.family = key.family) ∧
      (compare key.qualifier other.qualifier).isLE ∧ compare other.qualifier qualifier = .lt := by
  rw [lt_firstOf_iff] at hlt
  obtain ⟨⟨hrow, hfamily⟩, hqualifier, _⟩ := family_eq hle (Ordering.isLE_of_eq_lt hlt)
  rw [hrow, hfamily, Std.ReflOrd.compare_self, Std.ReflOrd.compare_self] at hlt
  exact ⟨⟨hrow, hfamily⟩, Ordering.isLE_left_of_isLE_then hqualifier, hlt⟩

theorem between_pastFamily {key other : Key} (hle : (compare key other).isLE)
    (hlt : compare other (pastFamily key.row key.family) = .lt) :
    (other.row = key.row ∧ other.family = key.family) ∧
      (compare key.qualifier other.qualifier).isLE := by
  rw [lt_pastFamily_iff, ← Ordering.then_eq (o := compare other.family key.family)] at hlt
  obtain ⟨hsame, hqualifier, _⟩ := family_eq hle hlt
  exact ⟨hsame, Ordering.isLE_left_of_isLE_then hqualifier⟩

end Key

end DatedCounts
