import DatedCounts.Proofs.Text.Items

/-!
# Reading back numerals

The digits of a number below `2 ^ 64` are a numeral for it. None of them is white space.
-/

namespace DatedCounts

theorem toList_toString (n : Nat) : (toString n).toList = Nat.toDigits 10 n := Nat.toList_repr

theorem isDigit_of_mem_toDigits {n : Nat} {c : Char} (h : c ∈ Nat.toDigits 10 n) : c.isDigit :=
  Nat.isDigit_of_mem_toDigits (by omega) (by omega) h

theorem isBare_toDigits (n : Nat) : IsBare (Nat.toDigits 10 n) :=
  isBare_of_forall fun _ hc => not_isBlank_of_isDigit (isDigit_of_mem_toDigits hc)

namespace Numeral

theorem digit?_digitChar {d : Nat} (h : d < 10) : digit? (Nat.digitChar d) = some d := by
  decide +revert

private theorem readDigits_append {value read : Nat} {front : List Char} (rest : List Char)
    (h : readDigits value front = .ok read) :
    readDigits value (front ++ rest) = readDigits read rest := by
  induction front generalizing value with
  | nil =>
    cases h
    rfl
  | cons c front ih =>
    simp only [readDigits, List.cons_append] at h ⊢
    split at h
    · cases h
    · split at h
      · next d hlt =>
        exact (if_pos hlt).trans (ih h)
      · cases h

private theorem readDigits_toDigits {n : Nat} (h : n < UInt64.size) :
    readDigits 0 (Nat.toDigits 10 n) = .ok n := by
  induction n using Nat.strongRecOn with
  | ind n ih =>
    by_cases hsmall : n < 10
    · rw [Nat.toDigits_of_lt_base hsmall]
      simp only [readDigits, digit?_digitChar hsmall]
      rw [if_pos (by omega), Nat.zero_mul, Nat.zero_add]
    · rw [Nat.toDigits_of_base_le (by omega) (by omega),
        readDigits_append _ (ih (n / 10) (by omega) (by omega))]
      have hdigit : n % 10 < 10 := Nat.mod_lt _ (by omega)
      simp only [readDigits, digit?_digitChar hdigit]
      rw [if_pos (by omega), Nat.div_add_mod' n 10]

private theorem parse_of_head {cs : List Char} (hne : cs ≠ []) (hplus : cs.head? ≠ some '+') :
    parse cs = (readDigits 0 cs).map .ofNat := by
  unfold parse
  split
  · exact absurd rfl hne
  · exact absurd rfl hplus
  · exact absurd rfl hplus
  · rfl

theorem parse_toDigits {n : Nat} (h : n < UInt64.size) :
    parse (Nat.toDigits 10 n) = .ok (.ofNat n) := by
  have hplus : (Nat.toDigits 10 n).head? ≠ some '+' := by
    intro hhead
    exact absurd (isDigit_of_mem_toDigits (List.mem_of_mem_head? hhead)) (by decide)
  rw [parse_of_head Nat.toDigits_ne_nil hplus, readDigits_toDigits h]
  rfl

theorem parse_toDigits_toNat (n : UInt64) : parse (Nat.toDigits 10 n.toNat) = .ok n := by
  rw [parse_toDigits n.toNat_lt, UInt64.ofNat_toNat]

theorem parse_trimBlank_toString (n : UInt64) :
    parse (trimBlank (toString n.toNat).toList) = .ok n := by
  rw [toList_toString, trimBlank_of_isBare (isBare_toDigits _), parse_toDigits_toNat]

end Numeral

/-- A number is read back from its text. -/
theorem Options.readMaxNext_toString {n : Nat} (h : n < UInt64.size) :
    readMaxNext (toString n) = .ok n := by
  rw [readMaxNext, toList_toString, trimBlank_of_isBare (isBare_toDigits n), Numeral.parse_toDigits h]
  exact congrArg Except.ok (UInt64.toNat_ofNat_of_lt' h)

end DatedCounts
