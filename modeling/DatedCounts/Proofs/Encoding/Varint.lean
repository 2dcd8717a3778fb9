import DatedCounts.Encoding.Varint
import DatedCounts.Proofs.Fallible

/-!
# Numbers written and read

A number is spelled by its digits in base 128, and zeros at the high end make longer spellings. A reader
takes a spelling of ten digits at most of a number below `2 ^ 64`, whatever follows it, and nothing else.
What is written is such a spelling.
-/

namespace DatedCounts.Varint

open Encoding

theorem shift_eq (digit place : Nat) : digit <<< (7 * place) = digit * 128 ^ place := by
  rw [Nat.shiftLeft_eq, Nat.pow_mul]

/-! ### Spellings -/

/-- Whether some bytes are the digits of a number in base 128, from the lowest one on, where every byte
but the last has 128 added. There may be zeros at the high end. -/
inductive Spells : Nat → Bytes → Prop
  | last {byte : UInt8} (hbyte : byte.toNat < 128) : Spells byte.toNat [byte]
  | more {byte : UInt8} {n : Nat} {rest : Bytes} (hbyte : 128 ≤ byte.toNat) (hrest : Spells n rest) :
      Spells (byte.toNat - 128 + 128 * n) (byte :: rest)

theorem Spells.ne_nil {n : Nat} {bytes : Bytes} (h : Spells n bytes) : bytes ≠ [] := by
  cases h <;> exact List.cons_ne_nil _ _

theorem spells_encode (n : Nat) : Spells n (encode n) := by
  induction n using Nat.strongRecOn with
  | ind n ih =>
    rw [encode]
    split
    · next hsmall =>
      have hbyte : (UInt8.ofNat n).toNat = n := by
        rw [UInt8.toNat_ofNat', Nat.mod_eq_of_lt (by omega)]
      have hlast := Spells.last (hbyte.symm ▸ hsmall)
      rwa [hbyte] at hlast
    · next hlarge =>
      have hbyte : (UInt8.ofNat (128 + n % 128)).toNat = 128 + n % 128 := by
        rw [UInt8.toNat_ofNat', Nat.mod_eq_of_lt (by omega)]
      have hmore := @Spells.more (.ofNat (128 + n % 128)) _ _ (by omega) (ih (n / 128) (by omega))
      rwa [hbyte, Nat.add_sub_cancel_left, Nat.mod_add_div] at hmore

theorem encode_ne_nil (n : Nat) : encode n ≠ [] := (spells_encode n).ne_nil

theorem length_encode_le (places : Nat) {n : Nat} (hn : n < 128 ^ (places + 1)) :
    (encode n).length ≤ places + 1 := by
  induction places generalizing n with
  | zero =>
    rw [encode, if_pos (show n < 128 from hn)]
    exact Nat.le_refl _
  | succ places ih =>
    rw [encode]
    split
    · exact Nat.succ_le_succ (Nat.zero_le _)
    · have hrest : n / 128 < 128 ^ (places + 1) := by
        rw [Nat.div_lt_iff_lt_mul (by decide)]
        exact hn
      exact Nat.succ_le_succ (ih hrest)

/-- Whether some bytes are a number as a reader takes it, of ten digits at most and below `2 ^ 64`. -/
structure IsNumber (n : Nat) (bytes : Bytes) : Prop where
  spells : Spells n bytes
  length_le : bytes.length ≤ 10
  lt : n < 2 ^ 64

theorem isNumber_encode {n : Nat} (hn : n < 2 ^ 64) : IsNumber n (encode n) where
  spells := spells_encode n
  length_le := length_encode_le 9 (Nat.lt_trans hn (by decide))
  lt := hn

/-! ### What a reader takes -/

theorem readDigits_of_spells {n : Nat} {spelled : Bytes} (h : Spells n spelled) (whole rest : Bytes)
    (place value : Nat) (hlength : place + spelled.length ≤ 10)
    (hn : n * 128 ^ place < 2 ^ 64) :
    readDigits whole place value (spelled ++ rest) = .ok (value + n * 128 ^ place, rest) := by
  induction h generalizing place value with
  | @last byte hbyte =>
    have hten : place ≠ 10 := by
      rw [List.length_singleton] at hlength
      omega
    -- The tenth place is worth `2 ^ 63`, so its digit is at most one.
    have htenth : ¬ (place = 9 ∧ 1 < byte.toNat) := by
      intro h
      rw [h.1] at hn
      omega
    rw [List.singleton_append, readDigits]
    simp only [shift_eq, Nat.mod_eq_of_lt hbyte]
    rw [if_neg hten, if_neg htenth, if_pos hbyte]
  | @more byte n spelled hbyte hrest ih =>
    have hbound := byte.toNat_lt
    have hpos := List.length_pos_iff.2 hrest.ne_nil
    rw [List.length_cons] at hlength
    have hdigit : byte.toNat % 128 = byte.toNat - 128 := by omega
    have hworth : (byte.toNat - 128 + 128 * n) * 128 ^ place =
        (byte.toNat - 128) * 128 ^ place + n * 128 ^ (place + 1) := by
      rw [Nat.pow_succ]
      ring
    rw [hworth] at hn
    rw [List.cons_append, readDigits]
    simp only [shift_eq, hdigit]
    rw [if_neg (by omega), if_neg (by omega), if_neg (by omega), ih _ _ (by omega) (by omega), hworth,
      Nat.add_assoc]

theorem value_lt {digit place value : Nat} (hdigit : digit < 128)
    (hvalue : value < 128 ^ place) : value + digit * 128 ^ place < 128 ^ (place + 1) := by
  calc value + digit * 128 ^ place
      < 128 ^ place + digit * 128 ^ place := Nat.add_lt_add_right hvalue _
    _ = (digit + 1) * 128 ^ place := by rw [Nat.add_mul, Nat.one_mul, Nat.add_comm]
    _ ≤ 128 * 128 ^ place := Nat.mul_le_mul_right _ hdigit
    _ = 128 ^ (place + 1) := by rw [Nat.pow_succ, Nat.mul_comm]

theorem value_lt_two_pow {digit place value : Nat} (hplace : place ≤ 9) (hdigit : digit < 128)
    (htenth : ¬ (place = 9 ∧ 1 < digit)) (hvalue : value < 128 ^ place) :
    value + digit * 128 ^ place < 2 ^ 64 := by
  rcases Nat.lt_or_eq_of_le hplace with hless | rfl
  · have hnext := value_lt hdigit hvalue
    have hpow : 128 ^ (place + 1) ≤ 128 ^ 9 := Nat.pow_le_pow_right (by decide) hless
    omega
  · omega

theorem spells_of_readDigits {whole bytes rest : Bytes} {place value total : Nat} (hplace : place ≤ 9)
    (hvalue : value < 128 ^ place) (h : readDigits whole place value bytes = .ok (total, rest)) :
    ∃ n spelled, bytes = spelled ++ rest ∧ Spells n spelled ∧ place + spelled.length ≤ 10 ∧
      total = value + n * 128 ^ place ∧ total < 2 ^ 64 := by
  induction bytes generalizing place value with
  | nil => cases h
  | cons byte bytes ih =>
    have hbound := byte.toNat_lt
    have hnext := value_lt (Nat.mod_lt byte.toNat (by decide : 0 < 128)) hvalue
    rw [readDigits] at h
    simp only [shift_eq, if_neg (show place ≠ 10 by omega)] at h
    split at h
    · cases h
    · next htenth =>
      split at h
      · next hlast =>
        cases h
        rw [Nat.mod_eq_of_lt hlast] at htenth ⊢
        exact ⟨byte.toNat, [byte], rfl, .last hlast, Nat.succ_le_succ hplace, rfl,
          value_lt_two_pow hplace hlast htenth hvalue⟩
      · next hmore =>
        have hless : place ≠ 9 := by
          rintro rfl
          cases bytes <;> simp [readDigits] at h
        obtain ⟨n, spelled, rfl, hspelled, hlength, rfl, htotal⟩ := ih (by omega) hnext h
        refine ⟨_, byte :: spelled, rfl, .more (by omega) hspelled, ?_, ?_, htotal⟩
        · rw [List.length_cons]
          omega
        · have hdigit : byte.toNat % 128 = byte.toNat - 128 := by omega
          rw [hdigit, Nat.pow_succ]
          ring

/-- A reader takes just the numbers below `2 ^ 64` that are spelled by ten digits at most. -/
theorem decode_eq_ok {bytes rest : Bytes} {n : UInt64} : decode bytes = .ok (n, rest) ↔
    ∃ spelled, IsNumber n.toNat spelled ∧ bytes = spelled ++ rest := by
  constructor
  · intro h
    obtain ⟨read, hread, hparts⟩ := map_eq_ok.1 h
    cases hparts
    obtain ⟨n, spelled, hbytes, hspelled, hlength, htotal, hbound⟩ :=
      spells_of_readDigits (by omega) (by decide) hread
    have htoNat : (UInt64.ofNat read.1).toNat = n := by
      rw [UInt64.toNat_ofNat', Nat.mod_eq_of_lt hbound]
      omega
    refine ⟨spelled, ⟨htoNat ▸ hspelled, ?_, UInt64.toNat_lt _⟩, hbytes⟩
    rwa [Nat.zero_add] at hlength
  · intro h
    obtain ⟨spelled, hnumber, rfl⟩ := h
    have hlength : 0 + spelled.length ≤ 10 := by
      rw [Nat.zero_add]
      exact hnumber.length_le
    have hworth : n.toNat * 128 ^ 0 < 2 ^ 64 := by
      rw [Nat.pow_zero, Nat.mul_one]
      exact hnumber.lt
    rw [decode, readDigits_of_spells hnumber.spells _ rest 0 0 hlength hworth]
    simp [Except.map]

theorem decode_of_isNumber {n : Nat} {spelled : Bytes} (h : IsNumber n spelled) (rest : Bytes) :
    decode (spelled ++ rest) = .ok (.ofNat n, rest) := by
  refine decode_eq_ok.2 ⟨spelled, ?_, rfl⟩
  rwa [UInt64.toNat_ofNat', Nat.mod_eq_of_lt h.lt]

theorem decode_encode {n : Nat} (hn : n < 2 ^ 64) (rest : Bytes) :
    decode (encode n ++ rest) = .ok (.ofNat n, rest) :=
  decode_of_isNumber (isNumber_encode hn) rest

theorem length_rest_lt {bytes rest : Bytes} {n : UInt64} (h : decode bytes = .ok (n, rest)) :
    rest.length < bytes.length := by
  obtain ⟨spelled, hnumber, rfl⟩ := decode_eq_ok.1 h
  have hpos := List.length_pos_iff.2 hnumber.spells.ne_nil
  rw [List.length_append]
  omega

end DatedCounts.Varint
