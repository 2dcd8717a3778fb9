import Mathlib
import DatedCounts.Key.Qualifier
import DatedCounts.Text.Utf8.RoundTrip

/-!
# Bytes of texts

A byte below 128 is in the UTF-8 form of a text just if its character is in the text. So a qualifier that is
the form of a text comes apart at the first NUL of the text, into the forms of what comes before and after it,
and the lines of a dump that is the form of a text are the forms of its lines.
-/

namespace DatedCounts

namespace Utf8

private theorem ofNat_eq_ofNat_iff {m n : Nat} (hm : m < 0x100) (hn : n < 0x100) :
    UInt8.ofNat m = UInt8.ofNat n ↔ n = m := by
  rw [← UInt8.toNat_inj, UInt8.toNat_ofNat', UInt8.toNat_ofNat', Nat.mod_eq_of_lt hm,
    Nat.mod_eq_of_lt hn]
  exact eq_comm

private theorem ofNat_mem_encodeChar {n : Nat} (h : n < 0x80) {c : Char} :
    UInt8.ofNat n ∈ encodeChar c ↔ c.toNat = n := by
  have hvalid : c.toNat < 0xD800 ∨ 0xDFFF < c.toNat ∧ c.toNat < 0x110000 := c.valid
  simp only [encodeChar]
  repeat' split
  all_goals
    simp (disch := omega) only [List.mem_cons, List.not_mem_nil, or_false, ofNat_eq_ofNat_iff]
  all_goals omega

/-- A byte below 128 stands for the character of that number and is in the form of no other. -/
theorem ascii_mem_encode {a : Char} (h : a.toNat < 0x80) {cs : List Char} :
    UInt8.ofNat a.toNat ∈ encode cs ↔ a ∈ cs := by
  rw [encode, List.mem_flatMap]
  simp only [ofNat_mem_encodeChar h, Char.toNat_inj, exists_eq_right]

theorem zero_mem_encode {cs : List Char} : 0 ∈ encode cs ↔ '\x00' ∈ cs :=
  ascii_mem_encode (a := '\x00') (by decide)

theorem lineBreak_mem_encode {cs : List Char} : 0x0A ∈ encode cs ↔ '\n' ∈ cs :=
  ascii_mem_encode (a := '\n') (by decide)

theorem encode_ne_nil {cs : List Char} (h : cs ≠ []) : encode cs ≠ [] := by
  intro hnil
  have hdecode := decode_encode cs
  rw [hnil] at hdecode
  exact h (Except.ok.inj hdecode).symm

theorem encode_nul_cons (cs : List Char) : encode ('\x00' :: cs) = 0 :: encode cs := rfl

theorem encode_append (xs ys : List Char) : encode (xs ++ ys) = encode xs ++ encode ys :=
  List.flatMap_append

theorem encode_intercalate (separator : Char) (texts : List (List Char)) :
    encode ([separator].intercalate texts) = (encode [separator]).intercalate (texts.map encode) := by
  induction texts with
  | nil => rfl
  | cons text rest ih =>
    cases rest with
    | nil => simp
    | cons next rest =>
      rw [List.intercalate_cons_cons, encode_append, encode_append, ih, List.map_cons, List.map_cons,
        List.map_cons, List.intercalate_cons_cons]

/-- The number of bytes of a text is the sum of those of its characters. -/
theorem length_encode (cs : List Char) :
    (encode cs).length = (cs.map fun c => (encodeChar c).length).sum :=
  List.length_flatMap

theorem length_encode_le_of_sublist {xs ys : List Char} (h : xs.Sublist ys) :
    (encode xs).length ≤ (encode ys).length := by
  rw [length_encode, length_encode]
  exact (h.map _).sum_le_sum fun _ _ => Nat.zero_le _

end Utf8

/-- A qualifier that is the UTF-8 form of a text comes apart at the first NUL of the text. -/
theorem Qualifier.ofBytes_encode (cs : List Char) : ofBytes (Utf8.encode cs) =
    match cutAt? '\x00' cs with
    | some (datatype, date) => raw (Utf8.encode datatype) (Utf8.encode date)
    | none => aggregated (Utf8.encode cs) := by
  cases hcut : cutAt? '\x00' cs with
  | some parts =>
    obtain ⟨datatype, date⟩ := parts
    obtain ⟨rfl, hdatatype⟩ := eq_append_of_cutAt? hcut
    rw [Utf8.encode_append, Utf8.encode_nul_cons]
    exact ofBytes_raw (mt Utf8.zero_mem_encode.1 hdatatype) _
  | none => exact ofBytes_aggregated (mt Utf8.zero_mem_encode.1 (cutAt?_eq_none.1 hcut))

end DatedCounts
