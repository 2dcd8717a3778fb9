import DatedCounts.Encoding.Value
import DatedCounts.Error
import DatedCounts.Proofs.Encoding.Varint
import DatedCounts.Proofs.Fallible
import DatedCounts.Proofs.Ordered.Lookup

/-!
# Values written and read

Bytes are read as a map just if they lay out its entries: the number of the entries, and then the length of
each date, the date and its count, with the dates ascending. So a map that was written is read again,
provided that its size and the lengths of its dates are below `2 ^ 64`, as the numbers that are written
before them have to be. A map that was read is no larger than the bytes that it was read from.
-/

namespace DatedCounts

open Encoding

theorem Text.bytes_of_ofBytes {bytes : Bytes} {text : Text} (h : ofBytes bytes = .ok text) :
    text.bytes = bytes := by
  rw [ofBytes] at h
  split at h
  · cases h
    rfl
  · cases h

theorem Count.decode_encode (count : Count) (rest : Bytes) :
    Varint.decode (count.encode ++ rest) = .ok (count, rest) := by
  rw [Count.encode, Varint.decode_encode count.toNat_lt, UInt64.ofNat_toNat]

namespace DateMap

/-! ### Steps of a reader -/

theorem decodeDate_eq_ok {bytes rest : Bytes} {date : Text} :
    decodeDate bytes = .ok (date, rest) ↔ ∃ length left, Varint.decode bytes = .ok (length, left) ∧
      length.toNat = date.bytes.length ∧ left = date.bytes ++ rest := by
  constructor
  · intro h
    obtain ⟨⟨length, left⟩, hlength, h⟩ := bind_eq_ok.1 h
    refine ⟨length, left, hlength, ?_⟩
    simp only at h
    split at h
    · cases h
    · next hshort =>
      split at h
      · next hdate =>
        cases h
        rw [Text.bytes_of_ofBytes hdate, List.length_take, List.take_append_drop]
        exact ⟨(Nat.min_eq_left (Nat.le_of_not_lt hshort)).symm, rfl⟩
      · cases h
  · rintro ⟨length, _, hdecode, hlength, rfl⟩
    refine bind_eq_ok.2 ⟨_, hdecode, ?_⟩
    simp [hlength, Text.ofBytes_bytes]

theorem decodeEntry_eq_ok {previous : Option Text} {bytes rest : Bytes} {entry : Text × Count} :
    decodeEntry previous bytes = .ok (entry, rest) ↔
      (∃ left, decodeDate bytes = .ok (entry.1, left) ∧ Varint.decode left = .ok (entry.2, rest)) ∧
        ∀ before ∈ previous, compare before entry.1 = .lt := by
  constructor
  · intro h
    obtain ⟨⟨date, left⟩, hdate, h⟩ := bind_eq_ok.1 h
    -- With or without a previous date, the count is read in the same way.
    have hread : (Varint.decode left >>= fun read => Except.ok ((date, read.1), read.2)) =
        .ok (entry, rest) ∧ ∀ before ∈ previous, compare before date = .lt := by
      cases previous with
      | none => exact ⟨h, by simp⟩
      | some before =>
        simp only at h
        split at h
        · cases h
        · next habove => exact ⟨h, by simpa using habove⟩
    obtain ⟨⟨count, _⟩, hcount, h⟩ := bind_eq_ok.1 hread.1
    cases h
    exact ⟨⟨left, hdate, hcount⟩, hread.2⟩
  · rintro ⟨⟨left, hdate, hcount⟩, habove⟩
    refine bind_eq_ok.2 ⟨_, hdate, ?_⟩
    cases previous with
    | none => exact bind_eq_ok.2 ⟨_, hcount, rfl⟩
    | some before => simp [habove before rfl, hcount, bind, Except.bind]

theorem decode_eq_ok {bytes : Bytes} {m : DateMap} : decode bytes = .ok m ↔
    ∃ declared left, Varint.decode bytes = .ok (declared, left) ∧
      decodeEntries declared.toNat declared.toNat ∅ none left = .ok (m, []) := by
  constructor
  · intro h
    obtain ⟨⟨declared, left⟩, hdeclared, h⟩ := bind_eq_ok.1 h
    obtain ⟨⟨read, rest⟩, hread, h⟩ := bind_eq_ok.1 h
    simp only at h
    split at h
    · next hrest =>
      cases h
      exact ⟨declared, left, hdeclared, List.isEmpty_iff.1 hrest ▸ hread⟩
    · cases h
  · rintro ⟨declared, left, hdeclared, hread⟩
    exact bind_eq_ok.2 ⟨_, hdeclared, bind_eq_ok.2 ⟨_, hread, rfl⟩⟩

/-! ### Layouts -/

def IsEntry (entry : Text × Count) (bytes : Bytes) : Prop :=
  ∃ length count, Varint.IsNumber entry.1.bytes.length length ∧ Varint.IsNumber entry.2.toNat count ∧
    bytes = length ++ entry.1.bytes ++ count

def AscendFrom (previous : Option Text) (entries : List (Text × Count)) : Prop :=
  Ascending entries ∧ ∀ before ∈ previous, ∀ entry ∈ entries, compare before entry.1 = .lt

/-- Whether some bytes are the number of some entries with ascending dates and then these entries. -/
def LaysOut (entries : List (Text × Count)) (bytes : Bytes) : Prop :=
  Ascending entries ∧ ∃ size parts, Varint.IsNumber entries.length size ∧
    List.Forall₂ IsEntry entries parts ∧ bytes = size ++ parts.flatten

theorem IsEntry.ne_nil {entry : Text × Count} {bytes : Bytes} (h : IsEntry entry bytes) : bytes ≠ [] := by
  obtain ⟨length, count, hlength, _, rfl⟩ := h
  simp [hlength.spells.ne_nil]

theorem ascendFrom_cons {previous : Option Text} {entry : Text × Count}
    {entries : List (Text × Count)} : AscendFrom previous (entry :: entries) ↔
      (∀ before ∈ previous, compare before entry.1 = .lt) ∧ AscendFrom (some entry.1) entries := by
  constructor
  · intro h
    obtain ⟨hfirst, hascending⟩ := List.pairwise_cons.1 h.1
    refine ⟨fun before hbefore => h.2 before hbefore entry List.mem_cons_self, hascending, ?_⟩
    intro before hbefore
    cases hbefore
    exact hfirst
  · intro h
    obtain ⟨habove, hascending, hfirst⟩ := h
    refine ⟨List.pairwise_cons.2 ⟨hfirst entry.1 rfl, hascending⟩, ?_⟩
    intro before hbefore
    refine List.forall_mem_cons.2 ⟨habove before hbefore, fun other hother => ?_⟩
    exact Std.TransCmp.lt_trans (habove before hbefore) (hfirst entry.1 rfl other hother)

theorem decodeDate_eq_ok_iff {bytes rest : Bytes} {date : Text} :
    decodeDate bytes = .ok (date, rest) ↔
      ∃ length, Varint.IsNumber date.bytes.length length ∧ bytes = length ++ date.bytes ++ rest := by
  rw [decodeDate_eq_ok]
  constructor
  · intro h
    obtain ⟨length, _, hdecode, hlength, rfl⟩ := h
    obtain ⟨spelled, hnumber, rfl⟩ := Varint.decode_eq_ok.1 hdecode
    exact ⟨spelled, hlength ▸ hnumber, (List.append_assoc ..).symm⟩
  · intro h
    obtain ⟨spelled, hnumber, rfl⟩ := h
    refine ⟨.ofNat date.bytes.length, date.bytes ++ rest, ?_, ?_, rfl⟩
    · rw [List.append_assoc]
      exact Varint.decode_of_isNumber hnumber _
    · rw [UInt64.toNat_ofNat', Nat.mod_eq_of_lt hnumber.lt]

theorem decodeEntry_eq_ok_iff {previous : Option Text} {bytes rest : Bytes} {entry : Text × Count} :
    decodeEntry previous bytes = .ok (entry, rest) ↔
      (∃ part, IsEntry entry part ∧ bytes = part ++ rest) ∧
        ∀ before ∈ previous, compare before entry.1 = .lt := by
  rw [decodeEntry_eq_ok]
  apply and_congr_left
  intro _
  constructor
  · intro h
    obtain ⟨left, hdate, hleft⟩ := h
    obtain ⟨length, hlength, rfl⟩ := decodeDate_eq_ok_iff.1 hdate
    obtain ⟨count, hcount, rfl⟩ := Varint.decode_eq_ok.1 hleft
    exact ⟨_, ⟨length, count, hlength, hcount, rfl⟩, (List.append_assoc ..).symm⟩
  · intro h
    obtain ⟨_, ⟨length, count, hlength, hcount, rfl⟩, rfl⟩ := h
    refine ⟨count ++ rest, decodeDate_eq_ok_iff.2 ⟨length, hlength, List.append_assoc ..⟩, ?_⟩
    exact Varint.decode_eq_ok.2 ⟨count, hcount, rfl⟩

/-- The missing entries are read just if they are laid out one after another, and are taken into the map
in their order. -/
theorem decodeEntries_eq_ok_iff {declared missing : Nat} {m read : DateMap} {previous : Option Text}
    {bytes rest : Bytes} : decodeEntries declared missing m previous bytes = .ok (read, rest) ↔
      ∃ entries parts, entries.length = missing ∧ AscendFrom previous entries ∧
        List.Forall₂ IsEntry entries parts ∧ bytes = parts.flatten ++ rest ∧
          read = entries.foldl (fun m entry => m.insert entry.1 entry.2) m := by
  induction missing generalizing m previous bytes with
  | zero =>
    constructor
    · intro h
      cases h
      exact ⟨[], [], rfl, ⟨.nil, by simp⟩, .nil, rfl, rfl⟩
    · intro h
      obtain ⟨entries, parts, hlength, _, hparts, rfl, rfl⟩ := h
      obtain rfl := List.length_eq_zero_iff.1 hlength
      cases hparts
      rfl
  | succ missing ih =>
    rw [decodeEntries]
    constructor
    · intro h
      split at h
      · cases h
      · split at h
        · cases h
        · next date count left hentry =>
          obtain ⟨⟨part, hpart, rfl⟩, habove⟩ := decodeEntry_eq_ok_iff.1 hentry
          obtain ⟨entries, parts, rfl, hascend, hparts, rfl, rfl⟩ := ih.1 h
          refine ⟨(date, count) :: entries, part :: parts, rfl, ascendFrom_cons.2 ⟨habove, hascend⟩,
            .cons hpart hparts, ?_, rfl⟩
          rw [List.flatten_cons, List.append_assoc]
    · intro h
      obtain ⟨_, _, hlength, hascend, hparts, rfl, rfl⟩ := h
      cases hparts with
      | nil => cases hlength
      | @cons entry part entries parts hpart hparts =>
        obtain ⟨habove, hascend⟩ := ascendFrom_cons.1 hascend
        have hentry : decodeEntry previous ((part :: parts).flatten ++ rest) =
            .ok (entry, parts.flatten ++ rest) := by
          rw [List.flatten_cons, List.append_assoc]
          exact decodeEntry_eq_ok_iff.2 ⟨⟨part, hpart, rfl⟩, habove⟩
        have hne : ((part :: parts).flatten ++ rest).isEmpty = false := by
          simp [hpart.ne_nil]
        rw [hne, hentry]
        exact ih.2 ⟨entries, parts, Nat.succ.inj hlength, hascend, hparts, rfl, rfl⟩

theorem entries_foldl_insert (entries : List (Text × Count)) (m : DateMap) :
    (entries.foldl (fun m entry => m.insert entry.1 entry.2) m).entries =
      entries.foldl (fun m entry => m.insert entry.1 entry.2) m.entries := by
  induction entries generalizing m with
  | nil => rfl
  | cons entry entries ih => exact ih (m.insert entry.1 entry.2)

theorem toList_foldl_insert {entries : List (Text × Count)} (h : Ascending entries) :
    (entries.foldl (fun m entry => m.insert entry.1 entry.2) (∅ : DateMap)).toList = entries := by
  rw [toList, entries_foldl_insert]
  exact OrderedMap.toList_foldl_insert h

theorem exists_decode_eq_ok_iff {bytes : Bytes} {entries : List (Text × Count)} :
    (∃ m, decode bytes = .ok m ∧ m.toList = entries) ↔ LaysOut entries bytes := by
  constructor
  · intro h
    obtain ⟨m, hdecode, rfl⟩ := h
    obtain ⟨declared, left, hdeclared, hread⟩ := decode_eq_ok.1 hdecode
    obtain ⟨size, hsize, rfl⟩ := Varint.decode_eq_ok.1 hdeclared
    obtain ⟨entries, parts, hlength, hascend, hparts, rfl, rfl⟩ := decodeEntries_eq_ok_iff.1 hread
    rw [toList_foldl_insert hascend.1]
    exact ⟨hascend.1, size, parts, hlength ▸ hsize, hparts, by rw [List.append_nil]⟩
  · intro h
    obtain ⟨hascending, size, parts, hsize, hparts, rfl⟩ := h
    refine ⟨_, decode_eq_ok.2 ⟨_, _, Varint.decode_of_isNumber hsize parts.flatten, ?_⟩,
      toList_foldl_insert hascending⟩
    rw [UInt64.toNat_ofNat', Nat.mod_eq_of_lt hsize.lt]
    exact decodeEntries_eq_ok_iff.2
      ⟨entries, parts, rfl, ⟨hascending, by simp⟩, hparts, (List.append_nil _).symm, rfl⟩

theorem toList_injective {m other : DateMap} (h : m.toList = other.toList) : m = other :=
  DateMap.ext (OrderedMap.ext h)

theorem decode_eq_ok_iff {bytes : Bytes} {m : DateMap} :
    decode bytes = .ok m ↔ LaysOut m.toList bytes := by
  constructor
  · intro h
    exact exists_decode_eq_ok_iff.1 ⟨m, h, rfl⟩
  · intro h
    obtain ⟨other, hdecode, hlist⟩ := exists_decode_eq_ok_iff.2 h
    rwa [toList_injective hlist] at hdecode

/-- Whether bytes are refused as a malformed encoding, because of a fault. -/
structure Rejects (bytes : Bytes) (fault : Fault) : Prop where
  decode_eq : decode bytes = .error fault
  kind_eq : (Error.encoding fault).kind = .malformedEncoding

theorem exists_decode_or_rejects (bytes : Bytes) :
    (∃ m, decode bytes = .ok m) ∨ ∃ fault, Rejects bytes fault := by
  cases hdecode : decode bytes with
  | ok m => exact .inl ⟨m, rfl⟩
  | error fault => exact .inr ⟨fault, hdecode, rfl⟩

/-! ### Reading what was written -/

/-- Whether the numbers that are written for a map fit into 64 bits. -/
structure Fits (m : DateMap) : Prop where
  size : m.size < 2 ^ 64
  dates : ∀ entry ∈ m.toList, entry.1.bytes.length < 2 ^ 64

theorem isEntry_encodeEntry {entry : Text × Count} (h : entry.1.bytes.length < 2 ^ 64) :
    IsEntry entry (encodeEntry entry) :=
  ⟨_, _, Varint.isNumber_encode h, Varint.isNumber_encode entry.2.toNat_lt, rfl⟩

theorem Fits.laysOut {m : DateMap} (h : m.Fits) : LaysOut m.toList m.encode := by
  refine ⟨m.entries.ascending, _, m.toList.map encodeEntry, Varint.isNumber_encode h.size, ?_, ?_⟩
  · apply List.forall₂_map_right_iff.2
    apply List.forall₂_same.2
    intro entry hentry
    exact isEntry_encodeEntry (h.dates entry hentry)
  · rw [encode, List.flatMap_def]
    rfl

theorem decode_encode {m : DateMap} (h : m.Fits) : decode m.encode = .ok m :=
  decode_eq_ok_iff.2 h.laysOut

/-! ### Sizes of what is read -/

theorem length_le_of_isEntry {entries : List (Text × Count)} {parts : List Bytes}
    (h : List.Forall₂ IsEntry entries parts) : entries.length ≤ parts.flatten.length ∧
      ∀ entry ∈ entries, entry.1.bytes.length ≤ parts.flatten.length := by
  induction h with
  | nil => simp
  | @cons entry part entries parts hpart _ ih =>
    have hpos := List.length_pos_iff.2 hpart.ne_nil
    have hdate : entry.1.bytes.length ≤ part.length := by
      obtain ⟨length, count, _, _, rfl⟩ := hpart
      simp only [List.length_append]
      omega
    rw [List.flatten_cons, List.length_append, List.length_cons]
    refine ⟨by omega, List.forall_mem_cons.2 ⟨by omega, fun other hother => ?_⟩⟩
    exact Nat.le_add_left_of_le (ih.2 other hother)

structure AtMost (bound : Nat) (m : DateMap) : Prop where
  size : m.size ≤ bound
  dates : ∀ entry ∈ m.toList, entry.1.bytes.length ≤ bound

theorem AtMost.mono {m : DateMap} {bound other : Nat} (h : m.AtMost bound) (hle : bound ≤ other) :
    m.AtMost other :=
  ⟨Nat.le_trans h.size hle, fun entry hentry => Nat.le_trans (h.dates entry hentry) hle⟩

theorem AtMost.fits {m : DateMap} {bound : Nat} (h : m.AtMost bound) (hbound : bound < 2 ^ 64) :
    m.Fits :=
  ⟨Nat.lt_of_le_of_lt h.size hbound,
    fun entry hentry => Nat.lt_of_le_of_lt (h.dates entry hentry) hbound⟩

/-- A map that was read is no larger than the bytes that it was read from, and neither are its dates. -/
theorem atMost_of_decode {bytes : Bytes} {m : DateMap} (h : decode bytes = .ok m) :
    m.AtMost bytes.length := by
  obtain ⟨_, size, parts, _, hparts, rfl⟩ := decode_eq_ok_iff.1 h
  obtain ⟨hsize, hdates⟩ := length_le_of_isEntry hparts
  rw [List.length_append]
  exact ⟨Nat.le_add_left_of_le hsize, fun entry hentry => Nat.le_add_left_of_le (hdates entry hentry)⟩

end DateMap

end DatedCounts
