import DatedCounts.Error
import DatedCounts.Proofs.Encoding.Spelling

/-!
# Numbers digit by digit

Where a number at the head of some bytes ends and what it is can be told from the bytes alone: it ends at
the first byte below 128, and the digits up to there add up to it. A reader takes it just if there are ten
digits at most and they come to less than `2 ^ 64`. A writer makes do with as few digits as there can be,
and how many they are follows from the number of its bits.
-/

namespace DatedCounts.Varint

open Encoding

/-! ### Digits -/

/-- The sum of the digits of some bytes in base 128, each at its place, from the lowest one on. -/
def worth : Bytes → Nat
  | [] => 0
  | byte :: rest => byte.toNat % 128 + 128 * worth rest

/-- Whether the last one of so many bytes at the head is the first of all that is below 128. -/
def EndsAt (bytes : Bytes) (length : Nat) : Prop :=
  ∃ front last rest, bytes = front ++ last :: rest ∧ length = front.length + 1 ∧
    (∀ byte ∈ front, 128 ≤ byte.toNat) ∧ last.toNat < 128

theorem EndsAt.cons {byte : UInt8} {bytes : Bytes} {length : Nat} (hbyte : 128 ≤ byte.toNat)
    (h : EndsAt bytes length) : EndsAt (byte :: bytes) (length + 1) := by
  obtain ⟨front, last, rest, rfl, rfl, hfront, hlast⟩ := h
  exact ⟨byte :: front, last, rest, rfl, rfl, List.forall_mem_cons.2 ⟨hbyte, hfront⟩, hlast⟩

theorem Spells.endsAt {n : Nat} {spelled : Bytes} (h : Spells n spelled) (rest : Bytes) :
    EndsAt (spelled ++ rest) spelled.length ∧ worth spelled = n := by
  induction h with
  | @last byte hbyte =>
    refine ⟨⟨[], byte, rest, rfl, rfl, by simp, hbyte⟩, ?_⟩
    rw [worth, worth, Nat.mod_eq_of_lt hbyte]
    rfl
  | @more byte n spelled hbyte _ ih =>
    have hbound := byte.toNat_lt
    have hdigit : byte.toNat % 128 = byte.toNat - 128 := by omega
    refine ⟨ih.1.cons hbyte, ?_⟩
    rw [worth, ih.2, hdigit]

theorem spells_of_forall {front : Bytes} {last : UInt8} (hfront : ∀ byte ∈ front, 128 ≤ byte.toNat)
    (hlast : last.toNat < 128) : Spells (worth (front ++ [last])) (front ++ [last]) := by
  induction front with
  | nil =>
    rw [List.nil_append, worth, worth, Nat.mod_eq_of_lt hlast]
    exact .last hlast
  | cons byte front ih =>
    obtain ⟨hbyte, hfront⟩ := List.forall_mem_cons.1 hfront
    have hbound := byte.toNat_lt
    have hdigit : byte.toNat % 128 = byte.toNat - 128 := by omega
    rw [List.cons_append, worth, hdigit]
    exact .more hbyte (ih hfront)

theorem EndsAt.spells {bytes : Bytes} {length : Nat} (h : EndsAt bytes length) :
    length ≤ bytes.length ∧ (bytes.take length).length = length ∧
      Spells (worth (bytes.take length)) (bytes.take length) := by
  obtain ⟨front, last, rest, rfl, rfl, hfront, hlast⟩ := h
  have htake : (front ++ last :: rest).take (front.length + 1) = front ++ [last] := by
    rw [List.take_length_add_append, List.take_succ_cons, List.take_zero]
  rw [htake, List.length_append, List.length_append, List.length_cons, List.length_singleton]
  exact ⟨by omega, rfl, spells_of_forall hfront hlast⟩

/-! ### Sizes -/

theorem size_eq (n : Nat) : size n = if n < 128 then 1 else size (n / 128) + 1 := by
  -- The lowest digit takes up the lowest seven bits.
  have hlog : (n / 128).log2 = n.log2 - 7 := by
    rw [Nat.log2_eq_log_two, Nat.log2_eq_log_two]
    exact Nat.log_div_base_pow 2 n 7
  split
  · next hsmall =>
    have hbits : n.log2 < 7 := by
      rcases Nat.eq_zero_or_pos n with rfl | hpos
      · decide
      · exact (Nat.log2_lt (Nat.ne_of_gt hpos)).2 hsmall
    rw [size, Nat.div_eq_of_lt hbits]
  · next hlarge =>
    have hbits : ¬ n.log2 < 7 := fun h => hlarge ((Nat.log2_lt (by omega)).1 h)
    rw [size, size, hlog]
    omega

theorem length_encode (n : Nat) : (encode n).length = size n := by
  induction n using Nat.strongRecOn with
  | ind n ih =>
    rw [encode, size_eq]
    split
    · rfl
    · rw [List.length_cons, ih (n / 128) (by omega)]

theorem size_le_size {m n : Nat} (h : m ≤ n) : size m ≤ size n := by
  have hlog : m.log2 ≤ n.log2 := by
    rw [Nat.log2_eq_log_two, Nat.log2_eq_log_two]
    exact Nat.log_mono_right h
  exact Nat.succ_le_succ (Nat.div_le_div_right hlog)

/-! ### Reading and writing -/

/-- Whether a number is read from the first so many of some bytes. -/
def Reads (bytes : Bytes) (n : UInt64) (length : Nat) : Prop :=
  length ≤ bytes.length ∧ decode bytes = .ok (n, bytes.drop length)

theorem reads_iff_isNumber {bytes : Bytes} {n : UInt64} {length : Nat} : Reads bytes n length ↔
    length ≤ bytes.length ∧ IsNumber n.toNat (bytes.take length) := by
  refine and_congr_right fun _ => ?_
  rw [decode_eq_ok]
  constructor
  · rintro ⟨spelled, hnumber, hbytes⟩
    have hspelled : bytes.take length ++ bytes.drop length = spelled ++ bytes.drop length :=
      (List.take_append_drop length bytes).trans hbytes
    rw [List.append_cancel_right hspelled]
    exact hnumber
  · intro hnumber
    exact ⟨_, hnumber, (List.take_append_drop length bytes).symm⟩

/-- A number is read up to the first byte below 128, if there are ten digits at most up to there and they
come to less than `2 ^ 64`. -/
theorem reads_iff {bytes : Bytes} {n : UInt64} {length : Nat} : Reads bytes n length ↔
    EndsAt bytes length ∧ length ≤ 10 ∧ worth (bytes.take length) < 2 ^ 64 ∧
      worth (bytes.take length) = n.toNat := by
  rw [reads_iff_isNumber]
  constructor
  · rintro ⟨hlength, hnumber⟩
    have htake : (bytes.take length).length = length := List.length_take_of_le hlength
    obtain ⟨hends, hworth⟩ := hnumber.spells.endsAt (bytes.drop length)
    rw [List.take_append_drop, htake] at hends
    exact ⟨hends, htake ▸ hnumber.length_le, hworth ▸ hnumber.lt, hworth⟩
  · rintro ⟨hends, hle, hbound, hworth⟩
    obtain ⟨hlength, htake, hspells⟩ := hends.spells
    exact ⟨hlength, hworth ▸ hspells, htake.trans_le hle, hworth ▸ hbound⟩

theorem reads_encode (n : UInt64) (rest : Bytes) :
    Reads (encode n.toNat ++ rest) n (size n.toNat) := by
  refine ⟨?_, ?_⟩
  · rw [List.length_append, length_encode]
    exact Nat.le_add_right _ _
  · rw [decode_encode n.toNat_lt, UInt64.ofNat_toNat, List.drop_left' (length_encode n.toNat)]

theorem exists_reads_or_rejects (bytes : Bytes) : (∃ n length, Reads bytes n length) ∨
    ∃ fault, decode bytes = .error fault ∧ (Error.encoding fault).kind = .malformedEncoding := by
  cases hdecode : decode bytes with
  | error fault => exact .inr ⟨fault, rfl, rfl⟩
  | ok read =>
    obtain ⟨n, rest⟩ := read
    obtain ⟨spelled, _, rfl⟩ := decode_eq_ok.1 hdecode
    refine .inl ⟨n, spelled.length, ?_, ?_⟩
    · rw [List.length_append]
      exact Nat.le_add_right _ _
    · rw [hdecode, List.drop_left]

/-- No number is read from fewer bytes than it is written in, or from other ones that are as many. -/
theorem Reads.noLonger {bytes : Bytes} {n : UInt64} {length : Nat} (h : Reads bytes n length) :
    size n.toNat ≤ length ∧ (length = size n.toNat → bytes.take length = encode n.toNat) := by
  obtain ⟨hlength, hnumber⟩ := reads_iff_isNumber.1 h
  have hshortest := hnumber.spells.noLonger
  rwa [Bytes.NoLonger, List.length_take_of_le hlength, length_encode] at hshortest

/-- Every number of 64 bits is written behind what a buffer holds, in as many bytes as its size says, and
is read again whatever follows. From any bytes a number is read just if its digits end in time and come to
no more than 64 bits. No shorter spelling of it is read, no other one that is as short, and a greater
number is no shorter. -/
theorem reads_written :
    (∀ (n : UInt64) (buffer rest : Bytes),
      appendTo buffer n.toNat = (buffer ++ encode n.toNat, size n.toNat) ∧
        (encode n.toNat).length = size n.toNat ∧ 1 ≤ size n.toNat ∧ size n.toNat ≤ 10 ∧
        Reads (encode n.toNat ++ rest) n (size n.toNat)) ∧
    (∀ bytes : Bytes,
      (∀ (n : UInt64) (length : Nat), Reads bytes n length ↔
        EndsAt bytes length ∧ length ≤ 10 ∧ worth (bytes.take length) < 2 ^ 64 ∧
          worth (bytes.take length) = n.toNat) ∧
      ((∃ n length, Reads bytes n length) ∨
        ∃ fault, decode bytes = .error fault ∧ (Error.encoding fault).kind = .malformedEncoding)) ∧
    (∀ (bytes : Bytes) (n : UInt64) (length : Nat), Reads bytes n length →
      size n.toNat ≤ length ∧ (length = size n.toNat → bytes.take length = encode n.toNat)) ∧
    ∀ m n : UInt64, m ≤ n → size m.toNat ≤ size n.toNat := by
  refine ⟨fun n buffer rest => ?_,
    fun bytes => ⟨fun n length => reads_iff, exists_reads_or_rejects bytes⟩,
    fun bytes n length => Reads.noLonger,
    fun m n hle => size_le_size (UInt64.le_iff_toNat_le.1 hle)⟩
  have happend := appendTo_eq buffer n.toNat
  have hten := (isNumber_encode n.toNat_lt).length_le
  rw [length_encode] at happend hten
  exact ⟨happend, length_encode n.toNat, Nat.succ_le_succ (Nat.zero_le _), hten, reads_encode n rest⟩

/-- A number spelled with zeros at its high end, and a byte behind it. -/
def padded : Bytes := [172, 130, 128, 0, 7]

theorem reads_written_padded :
    Reads padded 300 4 ∧ size (300 : UInt64).toNat ≤ 4 ∧
      (4 = size (300 : UInt64).toNat → padded.take 4 = encode (300 : UInt64).toNat) ∧
      (255 : UInt64) ≤ 300 ∧ size (255 : UInt64).toNat ≤ size (300 : UInt64).toNat := by
  obtain ⟨_, _, hshortest, hmono⟩ := reads_written
  have hreads : Reads padded 300 4 := ⟨by decide, by cbv⟩
  have hle : (255 : UInt64) ≤ 300 := by decide
  exact ⟨hreads, (hshortest padded 300 4 hreads).1, (hshortest padded 300 4 hreads).2, hle,
    hmono 255 300 hle⟩

/-- The tenth digit may be one, but no more. -/
example : (decode (List.replicate 9 255 ++ [1, 7])).toOption = some (18446744073709551615, [7]) ∧
    (decode (List.replicate 9 255 ++ [2, 7])).toOption = none := by
  decide

end DatedCounts.Varint
