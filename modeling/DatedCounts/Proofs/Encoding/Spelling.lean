import DatedCounts.Proofs.Encoding.Value

/-!
# Spellings of values

A number can be spelled with zeros at its high end, so a map can be spelled in more ways than one. A
reader takes nothing but spellings, and what is written is the one shortest spelling: every number is
spelled without such zeros, and all the other bytes of a spelling are fixed by the map.
-/

namespace DatedCounts

/-! ### Shorter byte strings -/

def Bytes.NoLonger (short long : Bytes) : Prop :=
  short.length ≤ long.length ∧ (long.length = short.length → long = short)

namespace Bytes.NoLonger

theorem refl (bytes : Bytes) : NoLonger bytes bytes := ⟨Nat.le_refl _, fun _ => rfl⟩

theorem append {short short' long long' : Bytes} (h : NoLonger short long)
    (h' : NoLonger short' long') : NoLonger (short ++ short') (long ++ long') := by
  obtain ⟨hle, heq⟩ := h
  obtain ⟨hle', heq'⟩ := h'
  simp only [NoLonger, List.length_append]
  refine ⟨Nat.add_le_add hle hle', fun hlength => ?_⟩
  rw [heq (by omega), heq' (by omega)]

end Bytes.NoLonger

open Encoding Bytes

namespace Varint

theorem Spells.noLonger {n : Nat} {bytes : Bytes} (h : Spells n bytes) :
    NoLonger (encode n) bytes := by
  induction h with
  | @last byte hbyte =>
    rw [encode, if_pos hbyte, UInt8.ofNat_toNat]
    exact .refl _
  | @more byte n rest hbyte hrest ih =>
    have hbound := byte.toNat_lt
    rw [encode]
    split
    · -- The digits behind the first one are all zero, so there was no need for them.
      have hpos := List.length_pos_iff.2 hrest.ne_nil
      refine ⟨?_, fun hlength => ?_⟩ <;> simp only [List.length_cons, List.length_nil] at *
      · omega
      · omega
    · have hdigit : 128 + (byte.toNat - 128 + 128 * n) % 128 = byte.toNat := by omega
      have hrest : (byte.toNat - 128 + 128 * n) / 128 = n := by omega
      rw [hdigit, hrest, UInt8.ofNat_toNat]
      exact (NoLonger.refl [byte]).append ih

theorem appendTo_eq (buffer : Bytes) (n : Nat) :
    appendTo buffer n = (buffer ++ encode n, (encode n).length) := by
  induction n using Nat.strongRecOn generalizing buffer with
  | ind n ih =>
    rw [appendTo, encode]
    split
    · rfl
    · rw [ih (n / 128) (by omega), List.append_assoc]
      rfl

end Varint

namespace DateMap

/-! ### Spellings of maps -/

/-- Whether some bytes spell the length of a date, hold the date and spell its count. -/
def SpellsEntry (entry : Text × Count) (bytes : Bytes) : Prop :=
  ∃ length count, Varint.Spells entry.1.bytes.length length ∧ Varint.Spells entry.2.toNat count ∧
    bytes = length ++ entry.1.bytes ++ count

/-- Whether some bytes spell the size of a map and then its entries in order. -/
def Spells (m : DateMap) (bytes : Bytes) : Prop :=
  ∃ size parts, Varint.Spells m.size size ∧ List.Forall₂ SpellsEntry m.toList parts ∧
    bytes = size ++ parts.flatten

theorem SpellsEntry.noLonger {entry : Text × Count} {bytes : Bytes} (h : SpellsEntry entry bytes) :
    NoLonger (encodeEntry entry) bytes := by
  obtain ⟨length, count, hlength, hcount, rfl⟩ := h
  exact (hlength.noLonger.append (.refl _)).append hcount.noLonger

theorem noLonger_flatten {entries : List (Text × Count)} {parts : List Bytes}
    (h : List.Forall₂ SpellsEntry entries parts) :
    NoLonger (entries.flatMap encodeEntry) parts.flatten := by
  induction h with
  | nil => exact .refl _
  | cons hpart _ ih => exact hpart.noLonger.append ih

/-- No spelling of a map is shorter than the written one. -/
theorem Spells.noLonger {m : DateMap} {bytes : Bytes} (h : m.Spells bytes) :
    NoLonger m.encode bytes := by
  obtain ⟨size, parts, hsize, hparts, rfl⟩ := h
  exact hsize.noLonger.append (noLonger_flatten hparts)

/-! ### What a reader takes -/

theorem spellsEntry_of_isEntry {entry : Text × Count} {bytes : Bytes} (h : IsEntry entry bytes) :
    entry.1.bytes.length < 2 ^ 64 ∧ SpellsEntry entry bytes := by
  obtain ⟨length, count, hlength, hcount, rfl⟩ := h
  exact ⟨hlength.lt, length, count, hlength.spells, hcount.spells, rfl⟩

/-- A reader takes nothing but spellings of maps of which the numbers fit into 64 bits. -/
theorem spells_of_decode {bytes : Bytes} {m : DateMap} (h : decode bytes = .ok m) :
    m.Fits ∧ m.Spells bytes := by
  obtain ⟨_, size, parts, hsize, hparts, rfl⟩ := decode_eq_ok_iff.1 h
  obtain ⟨hdates, hparts⟩ :=
    (List.forall₂_and_left _ _).1 (hparts.imp fun _ _ => spellsEntry_of_isEntry)
  exact ⟨⟨hsize.lt, hdates⟩, size, parts, hsize.spells, hparts, rfl⟩

/-! ### What a writer appends -/

theorem foldl_appendEntry (entries : List (Text × Count)) (buffer : Bytes) (added : Nat) :
    entries.foldl appendEntry (buffer, added) = (buffer ++ entries.flatMap encodeEntry,
      added + (entries.flatMap encodeEntry).length) := by
  induction entries generalizing buffer added with
  | nil => simp
  | cons entry entries ih =>
    have hentry : appendEntry (buffer, added) entry =
        (buffer ++ encodeEntry entry, added + (encodeEntry entry).length) := by
      simp only [appendEntry, Count.appendTo, Count.encode, Varint.appendTo_eq, encodeEntry,
        List.append_assoc, List.length_append, Nat.add_assoc]
    rw [List.foldl_cons, hentry, ih, List.flatMap_cons, List.append_assoc, List.length_append,
      Nat.add_assoc]

theorem appendTo_eq (buffer : Bytes) (m : DateMap) :
    appendTo buffer m = (buffer ++ m.encode, m.encode.length) := by
  rw [appendTo, Varint.appendTo_eq, foldl_appendEntry, encode, List.append_assoc, List.length_append]

/-- A map is written behind what a buffer holds, is read again, and has no other spelling that is as
short. The size of a map in memory and the lengths of its dates fit into 64 bits, and so do those of a
map that was read. -/
theorem encode_shortest (m : DateMap) (buffer : Bytes) :
    appendTo buffer m = (buffer ++ m.encode, m.encode.length) ∧
    (m.Fits → decode m.encode = .ok m) ∧
    ∀ bytes, decode bytes = .ok m → m.Fits ∧ m.Spells bytes ∧ m.encode.length ≤ bytes.length ∧
      (bytes.length = m.encode.length → bytes = m.encode) := by
  refine ⟨appendTo_eq buffer m, decode_encode, fun bytes hdecode => ?_⟩
  obtain ⟨hfits, hspells⟩ := spells_of_decode hdecode
  exact ⟨hfits, hspells, hspells.noLonger⟩

/-- The empty date with the greatest count, and a date of two bytes with none. -/
def extremes : DateMap := .ofList [(.ofString "", 18446744073709551615), (.ofString "é", 0)]

def padded : Bytes :=
  [130, 128, 0, 128, 0, 255, 255, 255, 255, 255, 255, 255, 255, 255, 1, 130, 0, 195, 169, 0]

theorem encode_shortest_padded :
    extremes.Fits ∧ decode padded = .ok extremes ∧
    appendTo [7] extremes = (7 :: extremes.encode, extremes.encode.length) ∧
    decode extremes.encode = .ok extremes ∧ extremes.Spells padded ∧
    extremes.encode.length ≤ padded.length ∧
    (padded.length = extremes.encode.length → padded = extremes.encode) := by
  have hfits : extremes.Fits := ⟨by decide, by decide⟩
  have hdecode : decode padded = .ok extremes := by cbv
  obtain ⟨happend, hread, hspellings⟩ := encode_shortest extremes [7]
  exact ⟨hfits, hdecode, happend, hread hfits, (hspellings padded hdecode).2⟩

end DateMap

end DatedCounts
