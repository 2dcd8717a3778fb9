import DatedCounts.Proofs.Encoding.Spelling

/-!
# Reading at offsets

A map can be read from a buffer at an offset that goes up, with words of 64 bits. Here every slice, sum,
difference, shift and conversion on the way is guarded: one that leaves the bounds of its operands is a trap,
and so is a round of the loop beyond a limit. Reading at offsets in no more rounds than the buffer has bytes
never traps, whatever the buffer declares, and gives just what is read from the list of the bytes.
-/

namespace DatedCounts.Guarded

open Encoding

/-- What must not happen to a reader. -/
inductive Trap where
  /-- A slice with its ends out of order or out of the buffer. -/
  | slice (start stop length : Nat)
  /-- A sum that does not fit into 64 bits. -/
  | sum (m n : Nat)
  /-- A difference below zero. -/
  | difference (m n : Nat)
  /-- A shift by 64 places or more. -/
  | shift (places : Nat)
  /-- A number that is no offset. -/
  | conversion (n : UInt64)
  /-- A round of the loop beyond the limit. -/
  | round
  deriving DecidableEq, Repr

/-- Why a reader stops without a result. -/
inductive Stop where
  | fault (fault : Fault)
  | trap (trap : Trap)
  deriving DecidableEq

/-! ### Guarded steps -/

def slice (buffer : Bytes) (start stop : Nat) : Except Stop Bytes :=
  if start ≤ stop ∧ stop ≤ buffer.length then .ok ((buffer.take stop).drop start)
  else .error (.trap (.slice start stop buffer.length))

def plus (m n : Nat) : Except Stop Nat :=
  if m + n < 2 ^ 64 then .ok (m + n) else .error (.trap (.sum m n))

def minus (m n : Nat) : Except Stop Nat :=
  if n ≤ m then .ok (m - n) else .error (.trap (.difference m n))

def shift (digit : UInt64) (places : Nat) : Except Stop UInt64 :=
  if places < 64 then .ok (digit <<< UInt64.ofNat places) else .error (.trap (.shift places))

def toOffset (n : UInt64) : Except Stop Nat :=
  if n.toNat < 2 ^ 64 then .ok n.toNat else .error (.trap (.conversion n))

/-! ### Guarded reading -/

def unended (window : Bytes) : Fault :=
  if 10 ≤ window.length then .unterminated else .truncated window.length

/-- Reads the digits from place `place` on and puts their bits into `value`. -/
def readDigits (window : Bytes) (place : Nat) (value : UInt64) : Bytes → Except Stop (UInt64 × Nat)
  | [] => .error (.fault (unended window))
  | byte :: rest => do
    let digit := (byte &&& 0x7F).toUInt64
    if 10 ≤ place then .error (.fault (unended window))
    else if place = 9 ∧ 1 < digit then
      let shown ← slice window 0 (place + 1)
      .error (.fault (.overflow shown))
    else
      let worth ← shift digit (7 * place)
      if byte &&& 0x80 = 0 then .ok (value ||| worth, place + 1)
      else readDigits window (place + 1) (value ||| worth) rest

def readNumber (buffer : Bytes) (offset : Nat) : Except Stop (UInt64 × Nat) := do
  let window ← slice buffer offset buffer.length
  let (n, length) ← readDigits window 0 0 window
  let offset ← plus offset length
  .ok (n, offset)

def readDate (buffer : Bytes) (offset : Nat) : Except Stop (Text × Nat) := do
  let (declared, offset) ← readNumber buffer offset
  let length ← toOffset declared
  let window ← slice buffer offset buffer.length
  if window.length < length then .error (.fault (.shortDate window.length length))
  else
    let stop ← plus offset length
    let bytes ← slice buffer offset stop
    match Text.ofBytes bytes with
    | .ok date => .ok (date, stop)
    | .error fault => .error (.fault (.dateNotText fault))

def readEntry (buffer : Bytes) (previous : Option Text) (offset : Nat) :
    Except Stop ((Text × Count) × Nat) := do
  let (date, offset) ← readDate buffer offset
  match previous with
  | some before =>
    if (compare before date).isGE then .error (.fault (.datesOutOfOrder date before))
  | none => pure ()
  let (count, offset) ← readNumber buffer offset
  .ok ((date, count), offset)

def readEntries (buffer : Bytes) (declared : Nat) :
    (rounds index : Nat) → DateMap → Option Text → (offset : Nat) → Except Stop (DateMap × Nat)
  | 0, index, m, _, offset => if index = declared then .ok (m, offset) else .error (.trap .round)
  | rounds + 1, index, m, previous, offset =>
    if index = declared then .ok (m, offset)
    else if buffer.length ≤ offset then .error (.fault (.missingEntries declared index))
    else do
      let ((date, count), offset) ← readEntry buffer previous offset
      readEntries buffer declared rounds (index + 1) (m.insert date count) (some date) offset

def decode (rounds : Nat) (buffer : Bytes) : Except Stop DateMap := do
  let (declared, offset) ← readNumber buffer 0
  let (m, offset) ← readEntries buffer declared.toNat rounds 0 ∅ none offset
  if offset = buffer.length then .ok m
  else
    let left ← minus buffer.length offset
    .error (.fault (.bytesAfterEntries left declared.toNat))

/-! ### Agreement -/

/-- Whether what is read at an offset is what is read from the bytes from there on: the same result, with
the offset of the bytes that are left, or the same fault. -/
inductive Agrees (buffer : Bytes) {α : Type} : Except Stop (α × Nat) → Except Fault (α × Bytes) → Prop
  | ok (result : α) {offset : Nat} (hoffset : offset ≤ buffer.length) :
      Agrees buffer (.ok (result, offset)) (.ok (result, buffer.drop offset))
  | error (fault : Fault) : Agrees buffer (.error (.fault fault)) (.error fault)

theorem Agrees.bind {buffer : Bytes} {α β : Type} {guarded : Except Stop (α × Nat)}
    {read : Except Fault (α × Bytes)} (h : Agrees buffer guarded read)
    {guarded' : α × Nat → Except Stop (β × Nat)} {read' : α × Bytes → Except Fault (β × Bytes)}
    (hnext : ∀ result offset, offset ≤ buffer.length →
      Agrees buffer (guarded' (result, offset)) (read' (result, buffer.drop offset))) :
    Agrees buffer (guarded >>= guarded') (read >>= read') := by
  cases h with
  | ok result hoffset => exact hnext result _ hoffset
  | error fault => exact .error fault

theorem slice_eq {buffer : Bytes} {start stop : Nat} (hstart : start ≤ stop)
    (hstop : stop ≤ buffer.length) :
    slice buffer start stop = .ok ((buffer.drop start).take (stop - start)) := by
  rw [slice, if_pos ⟨hstart, hstop⟩, List.drop_take]

theorem slice_rest {buffer : Bytes} {offset : Nat} (h : offset ≤ buffer.length) :
    slice buffer offset buffer.length = .ok (buffer.drop offset) := by
  rw [slice_eq h (Nat.le_refl _), ← List.length_drop, List.take_length]

theorem plus_eq {m n bound : Nat} (h : m + n ≤ bound) (hbound : bound < 2 ^ 64) :
    plus m n = .ok (m + n) :=
  if_pos (Nat.lt_of_le_of_lt h hbound)

theorem toOffset_eq (n : UInt64) : toOffset n = .ok n.toNat := if_pos n.toNat_lt

/-! ### Digits -/

theorem toNat_digit (byte : UInt8) : (byte &&& 0x7F).toUInt64.toNat = byte.toNat % 128 := by
  rw [UInt8.toNat_toUInt64, UInt8.toNat_and]
  exact Nat.and_two_pow_sub_one_eq_mod byte.toNat 7

theorem and_eq_zero_iff (byte : UInt8) : byte &&& 0x80 = 0 ↔ byte.toNat < 128 := by
  have hall : ∀ n : Fin 256, (⟨⟨n⟩⟩ : UInt8) &&& 0x80 = 0 ↔ (⟨⟨n⟩⟩ : UInt8).toNat < 128 := by
    decide +kernel
  exact hall byte.toBitVec.toFin

theorem shift_eq {digit : UInt64} {place : Nat} (hplace : place ≤ 9)
    (hworth : digit.toNat * 128 ^ place < 2 ^ 64) :
    ∃ worth, shift digit (7 * place) = .ok worth ∧ worth.toNat = digit.toNat * 128 ^ place := by
  refine ⟨_, if_pos (by omega), ?_⟩
  have hplaces : (UInt64.ofNat (7 * place)).toNat = 7 * place := by
    rw [UInt64.toNat_ofNat', Nat.mod_eq_of_lt (by omega)]
  rw [UInt64.toNat_shiftLeft, hplaces, Nat.mod_eq_of_lt (show 7 * place < 64 by omega), Varint.shift_eq,
    Nat.mod_eq_of_lt hworth]

/-- The bits of a digit lie above those of the value of the digits before it, so joining them adds them. -/
theorem toNat_or {value worth : UInt64} {place digit : Nat} (hvalue : value.toNat < 128 ^ place)
    (hworth : worth.toNat = digit * 128 ^ place) :
    (value ||| worth).toNat = value.toNat + digit * 128 ^ place := by
  have hpow : 128 ^ place = 2 ^ (7 * place) := by rw [Nat.pow_mul]
  rw [hpow] at hvalue hworth ⊢
  rw [UInt64.toNat_or, hworth, Nat.or_comm, Nat.mul_comm digit,
    ← Nat.two_pow_add_eq_or_of_lt hvalue digit, Nat.add_comm]

theorem exists_worth {value digit : UInt64} {place : Nat} (hplace : place ≤ 9)
    (hdigit : digit.toNat < 128) (htenth : ¬ (place = 9 ∧ 1 < digit.toNat))
    (hvalue : value.toNat < 128 ^ place) :
    ∃ worth, shift digit (7 * place) = .ok worth ∧
      (value ||| worth).toNat = value.toNat + digit.toNat * 128 ^ place := by
  have htotal := Varint.value_lt_two_pow hplace hdigit htenth hvalue
  obtain ⟨worth, hshift, hworth⟩ := shift_eq hplace (Nat.lt_of_le_of_lt (Nat.le_add_left ..) htotal)
  exact ⟨worth, hshift, toNat_or hvalue hworth⟩

theorem agrees_readDigits {window bytes : Bytes} {place : Nat} {value : UInt64} (hplace : place ≤ 10)
    (hwindow : place ≤ window.length) (hbytes : window.drop place = bytes)
    (hvalue : value.toNat < 128 ^ place) :
    Agrees window (readDigits window place value bytes)
      ((Varint.readDigits window place value.toNat bytes).map fun (total, rest) =>
        (.ofNat total, rest)) := by
  have hlength := congrArg List.length hbytes
  rw [List.length_drop] at hlength
  induction bytes generalizing place value with
  | nil =>
    rw [List.length_nil] at hlength
    rw [readDigits, Varint.readDigits, unended, show window.length = place by omega]
    by_cases hten : place = 10
    · rw [if_pos hten, if_pos (Nat.le_of_eq hten.symm)]
      exact .error _
    · rw [if_neg hten, if_neg (by omega)]
      exact .error _
  | cons byte bytes ih =>
    rw [List.length_cons] at hlength
    have hnext : place + 1 ≤ window.length := by omega
    have hrest : window.drop (place + 1) = bytes := by
      rw [← List.drop_drop, hbytes, List.drop_one, List.tail_cons]
    have hdigit := toNat_digit byte
    rw [readDigits, Varint.readDigits]
    by_cases hten : place = 10
    · rw [if_pos (Nat.le_of_eq hten.symm), if_pos hten, unended, if_pos (by omega)]
      exact .error _
    · rw [if_neg (by omega), if_neg hten, ← hdigit]
      generalize (byte &&& 0x7F).toUInt64 = digit at hdigit ⊢
      have hsmall : digit.toNat < 128 := hdigit ▸ Nat.mod_lt _ (by decide)
      simp only [show 1 < digit ↔ 1 < digit.toNat from UInt64.lt_iff_toNat_lt]
      by_cases htenth : place = 9 ∧ 1 < digit.toNat
      · rw [if_pos htenth, if_pos htenth, slice_eq (Nat.zero_le _) hnext, htenth.1]
        exact .error _
      · obtain ⟨worth, hshift, hor⟩ := exists_worth (by omega) hsmall htenth hvalue
        rw [if_neg htenth, if_neg htenth, hshift, Varint.shift_eq, ← hor]
        change Agrees window (if byte &&& 0x80 = 0 then _ else _) _
        by_cases hends : byte &&& 0x80 = 0
        · rw [if_pos hends, if_pos ((and_eq_zero_iff byte).1 hends), ← hrest]
          change Agrees window _ (.ok (UInt64.ofNat (value ||| worth).toNat, _))
          rw [UInt64.ofNat_toNat]
          exact .ok _ hnext
        · rw [if_neg hends, if_neg fun hlast => hends ((and_eq_zero_iff byte).2 hlast)]
          apply ih (by omega) hnext hrest _ (by omega)
          rw [hor]
          exact Varint.value_lt hsmall hvalue

theorem agrees_readNumber {buffer : Bytes} (hbuffer : buffer.length < 2 ^ 64) {offset : Nat}
    (hoffset : offset ≤ buffer.length) :
    Agrees buffer (readNumber buffer offset) (Varint.decode (buffer.drop offset)) := by
  have hdigits : Agrees (buffer.drop offset) (readDigits (buffer.drop offset) 0 0 (buffer.drop offset))
      (Varint.decode (buffer.drop offset)) :=
    agrees_readDigits (Nat.zero_le _) (Nat.zero_le _) rfl (by decide)
  rw [readNumber, slice_rest hoffset]
  change Agrees buffer (readDigits (buffer.drop offset) 0 0 (buffer.drop offset) >>= _) _
  generalize readDigits (buffer.drop offset) 0 0 (buffer.drop offset) = guarded at hdigits
  generalize Varint.decode (buffer.drop offset) = read at hdigits
  cases hdigits with
  | error fault => exact .error fault
  | @ok n length hlength =>
    rw [List.length_drop] at hlength
    have hend : offset + length ≤ buffer.length := by omega
    change Agrees buffer (plus offset length >>= _) _
    rw [plus_eq hend hbuffer, List.drop_drop]
    exact .ok n hend

/-! ### Dates, entries and maps -/

section Reading

variable {buffer : Bytes} (hbuffer : buffer.length < 2 ^ 64)
include hbuffer

theorem agrees_readDate {offset : Nat} (hoffset : offset ≤ buffer.length) :
    Agrees buffer (readDate buffer offset) (DateMap.decodeDate (buffer.drop offset)) := by
  apply (agrees_readNumber hbuffer hoffset).bind
  intro declared offset hoffset
  simp only [toOffset_eq, slice_rest hoffset]
  generalize declared.toNat = length
  change Agrees buffer (if (buffer.drop offset).length < length then _ else _) _
  by_cases hshort : (buffer.drop offset).length < length
  · rw [if_pos hshort, if_pos hshort]
    exact .error _
  · have hend : offset + length ≤ buffer.length := by
      rw [List.length_drop] at hshort
      omega
    rw [if_neg hshort, if_neg hshort, plus_eq hend hbuffer]
    change Agrees buffer (slice buffer offset (offset + length) >>= _) _
    rw [slice_eq (Nat.le_add_right _ _) hend, Nat.add_sub_cancel_left, List.drop_drop]
    change Agrees buffer (match Text.ofBytes ((buffer.drop offset).take length) with
      | .ok date => _
      | .error fault => _) _
    cases Text.ofBytes ((buffer.drop offset).take length) with
    | ok date => exact .ok date hend
    | error fault => exact .error _

theorem agrees_readEntry {offset : Nat} (hoffset : offset ≤ buffer.length) (previous : Option Text) :
    Agrees buffer (readEntry buffer previous offset)
      (DateMap.decodeEntry previous (buffer.drop offset)) := by
  apply (agrees_readDate hbuffer hoffset).bind
  intro date offset hoffset
  have hcount : Agrees buffer
      (readNumber buffer offset >>= fun read => .ok ((date, read.1), read.2))
      (Varint.decode (buffer.drop offset) >>= fun read => .ok ((date, read.1), read.2)) := by
    apply (agrees_readNumber hbuffer hoffset).bind
    intro count offset hoffset
    exact .ok (date, count) hoffset
  cases previous with
  | none => exact hcount
  | some before =>
    change Agrees buffer (if (compare before date).isGE then _ else _) (if _ then _ else _)
    by_cases hbelow : (compare before date).isGE
    · rw [if_pos hbelow, if_pos hbelow]
      exact .error _
    · rw [if_neg hbelow, if_neg hbelow]
      exact hcount

/-- Each round takes at least one byte, so as many rounds as bytes that are left, and one more, are enough,
whatever number of entries is declared. -/
theorem agrees_readEntries {declared rounds index offset : Nat} (hindex : index ≤ declared)
    (hoffset : offset ≤ buffer.length) (hrounds : buffer.length < rounds + offset) (m : DateMap)
    (previous : Option Text) :
    Agrees buffer (readEntries buffer declared rounds index m previous offset)
      (DateMap.decodeEntries declared (declared - index) m previous (buffer.drop offset)) := by
  induction rounds generalizing index m previous offset with
  | zero => omega
  | succ rounds ih =>
    rw [readEntries]
    by_cases hdone : index = declared
    · rw [if_pos hdone, hdone, Nat.sub_self]
      exact .ok m hoffset
    · have hmissing : declared - index = declared - (index + 1) + 1 := by omega
      rw [if_neg hdone, hmissing, DateMap.decodeEntries]
      by_cases hend : buffer.length ≤ offset
      · have hfound : declared - (declared - (index + 1) + 1) = index := by omega
        rw [if_pos hend, List.drop_eq_nil_of_le hend, hfound]
        exact .error _
      · have hleft : (buffer.drop offset).isEmpty ≠ true := by
          rwa [Ne, List.isEmpty_iff, List.drop_eq_nil_iff]
        rw [if_neg hend, if_neg hleft]
        have hentry := agrees_readEntry hbuffer hoffset previous
        generalize readEntry buffer previous offset = guarded at hentry
        generalize hread : DateMap.decodeEntry previous (buffer.drop offset) = read at hentry
        cases hentry with
        | error fault => exact .error fault
        | @ok entry next hnext =>
          have hprogress : offset < next := by
            obtain ⟨⟨part, hpart, hbytes⟩, _⟩ := DateMap.decodeEntry_eq_ok_iff.1 hread
            have hlength := congrArg List.length hbytes
            have hpos := List.length_pos_iff.2 hpart.ne_nil
            rw [List.length_append, List.length_drop, List.length_drop] at hlength
            omega
          exact ih (by omega) hnext (by omega) _ _

theorem decode_eq : decode buffer.length buffer = (DateMap.decode buffer).mapError .fault := by
  have hnumber := agrees_readNumber hbuffer (Nat.zero_le _)
  rw [decode, DateMap.decode]
  rw [List.drop_zero] at hnumber
  generalize readNumber buffer 0 = guarded at hnumber
  generalize hread : Varint.decode buffer = read at hnumber
  cases hnumber with
  | error fault => rfl
  | @ok declared offset hoffset =>
    have hpos : 0 < offset := by
      have hlength := Varint.length_rest_lt hread
      rw [List.length_drop] at hlength
      omega
    have hentries := agrees_readEntries hbuffer (Nat.zero_le declared.toNat) hoffset
      (Nat.lt_add_of_pos_right hpos) ∅ none
    change (readEntries buffer declared.toNat buffer.length 0 ∅ none offset >>= _) =
      (DateMap.decodeEntries declared.toNat declared.toNat ∅ none (buffer.drop offset) >>= _).mapError _
    rw [Nat.sub_zero] at hentries
    generalize readEntries buffer declared.toNat buffer.length 0 ∅ none offset = guarded at hentries
    generalize DateMap.decodeEntries declared.toNat declared.toNat ∅ none (buffer.drop offset) = read
      at hentries
    cases hentries with
    | error fault => rfl
    | @ok m offset hoffset =>
      change (if offset = buffer.length then _ else _) =
        (if (buffer.drop offset).isEmpty then _ else _ : Except Fault DateMap).mapError _
      by_cases hend : offset = buffer.length
      · rw [if_pos hend, hend, List.drop_length]
        rfl
      · have hleft : (buffer.drop offset).isEmpty ≠ true := by
          rw [Ne, List.isEmpty_iff, List.drop_eq_nil_iff]
          omega
        rw [if_neg hend, if_neg hleft, minus, if_pos hoffset, List.length_drop]
        rfl

end Reading

end DatedCounts.Guarded

namespace DatedCounts.DateMap

open Encoding

/-- Every buffer is read without a trap and in no more rounds than it has bytes. Reading it gives a map or a
fault of its encoding, and gives the map with some entries just if the buffer lays these entries out. -/
theorem decode_guarded (bytes : Bytes) :
    (bytes.length < 2 ^ 64 →
      Guarded.decode bytes.length bytes = (decode bytes).mapError .fault) ∧
    ((∃ m, decode bytes = .ok m) ∨ ∃ fault, Rejects bytes fault) ∧
    ∀ entries, (∃ m, decode bytes = .ok m ∧ m.toList = entries) ↔ LaysOut entries bytes :=
  ⟨Guarded.decode_eq, exists_decode_or_rejects bytes, fun _ => exists_decode_eq_ok_iff⟩

/-- One entry, where `2 ^ 64 - 1` are declared. -/
def overdeclared : Bytes := [255, 255, 255, 255, 255, 255, 255, 255, 255, 1, 1, 97, 5]

theorem decode_guarded_overdeclared : overdeclared.length < 2 ^ 64 ∧
    Guarded.decode 13 overdeclared = .error (.fault (.missingEntries 18446744073709551615 1)) ∧
    LaysOut extremes.toList padded := by
  have hlength : overdeclared.length < 2 ^ 64 := by decide
  have hdecode : decode overdeclared = .error (.missingEntries 18446744073709551615 1) := by cbv
  have hguarded := (decode_guarded overdeclared).1 hlength
  rw [hdecode] at hguarded
  have hpadded : decode padded = .ok extremes := by cbv
  have hlaid := (decode_guarded padded).2.2 extremes.toList
  exact ⟨hlength, hguarded, hlaid.1 ⟨extremes, hpadded, rfl⟩⟩

end DatedCounts.DateMap
