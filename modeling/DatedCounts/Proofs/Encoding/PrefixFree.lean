import DatedCounts.Proofs.Encoding.Spelling

/-!
# Cut and extended encodings

Every part of a map is read from the bytes that it takes up alone. So bytes that follow it are left over, and
if some of its own are cut off, the bytes run out on the way. As a map has to take up all of its bytes, no
encoding of a map is the beginning of another.
-/

namespace DatedCounts.Encoding

/-- Whether a fault is found where the bytes end before what is read does. -/
inductive Fault.RunsOut : Fault → Prop
  | truncated (read : Nat) : RunsOut (.truncated read)
  | missingEntries (declared found : Nat) : RunsOut (.missingEntries declared found)
  | shortDate (left length : Nat) : RunsOut (.shortDate left length)

variable {α β : Type}

/-- Whether a reader that is given the first bytes of some more has either read all that it reads of these,
and leaves the other bytes to be read, or has run out of bytes. -/
def CutAt (more : Bytes) (cut : Except Fault (α × Bytes)) (result : α) (rest : Bytes) : Prop :=
  (∃ left, cut = .ok (result, left) ∧ rest = left ++ more) ∨ ∃ fault, cut = .error fault ∧ fault.RunsOut

/-- Whether what a reader reads depends on the bytes alone that it takes. -/
structure Local (read : Bytes → Except Fault (α × Bytes)) : Prop where
  extend {bytes rest : Bytes} {result : α} (h : read bytes = .ok (result, rest)) (more : Bytes) :
    read (bytes ++ more) = .ok (result, rest ++ more)
  cut {bytes more rest : Bytes} {result : α} (h : read (bytes ++ more) = .ok (result, rest)) :
    CutAt more (read bytes) result rest

namespace Local

theorem ok (result : α) : Local fun bytes => .ok (result, bytes) where
  extend := by
    intro bytes rest result h more
    cases h
    rfl
  cut := by
    intro bytes more rest result h
    cases h
    exact .inl ⟨bytes, rfl, rfl⟩

theorem error (fault : Fault) : Local fun _ => (.error fault : Except Fault (α × Bytes)) where
  extend h := nomatch h
  cut h := nomatch h

/-- A reader is local if it goes on, from what a local reader has left, as a local reader. -/
theorem bind {read : Bytes → Except Fault (α × Bytes)} (h : Local read)
    {next : α × Bytes → Except Fault (β × Bytes)} (hnext : ∀ result, Local fun rest => next (result, rest)) :
    Local fun bytes => read bytes >>= next where
  extend := by
    intro bytes rest result hread more
    obtain ⟨⟨first, left⟩, hfirst, hleft⟩ := bind_eq_ok.1 hread
    exact bind_eq_ok.2 ⟨_, h.extend hfirst more, (hnext first).extend hleft more⟩
  cut := by
    intro bytes more rest result hread
    obtain ⟨⟨first, left⟩, hfirst, hleft⟩ := bind_eq_ok.1 hread
    rcases h.cut hfirst with ⟨short, hshort, rfl⟩ | ⟨fault, hfault, hrunsOut⟩
    · rw [CutAt, hshort]
      exact (hnext first).cut hleft
    · rw [CutAt, hfault]
      exact .inr ⟨fault, rfl, hrunsOut⟩

theorem unlessEmpty {read : Bytes → Except Fault (α × Bytes)} (h : Local read) {fault : Fault}
    (hfault : fault.RunsOut) :
    Local fun bytes => if bytes.isEmpty then .error fault else read bytes where
  extend := by
    intro bytes rest result hread more
    cases bytes with
    | nil => cases hread
    | cons byte bytes => exact h.extend hread more
  cut := by
    intro bytes more rest result hread
    cases bytes with
    | nil => exact .inr ⟨fault, rfl, hfault⟩
    | cons byte bytes => exact h.cut hread

end Local

end DatedCounts.Encoding

namespace DatedCounts.Varint

open Encoding

theorem cutAt_readDigits {whole other bytes more rest : Bytes} {place value n : Nat}
    (h : readDigits whole place value (bytes ++ more) = .ok (n, rest)) :
    CutAt more (readDigits other place value bytes) n rest := by
  induction bytes generalizing place value with
  | nil =>
    have hten : place ≠ 10 := by
      rintro rfl
      cases more <;> cases h
    rw [readDigits, if_neg hten]
    exact .inr ⟨_, rfl, .truncated place⟩
  | cons byte bytes ih =>
    rw [List.cons_append, readDigits] at h
    rw [readDigits]
    split at h
    · cases h
    · next hten =>
      split at h
      · cases h
      · next htenth =>
        simp only [if_neg hten, if_neg htenth]
        split at h
        · next hlast =>
          cases h
          rw [if_pos hlast]
          exact .inl ⟨bytes, rfl, rfl⟩
        · next hmore =>
          rw [if_neg hmore]
          exact ih h

theorem local_decode : Local decode where
  extend := by
    intro bytes rest n h more
    obtain ⟨spelled, hnumber, rfl⟩ := decode_eq_ok.1 h
    exact decode_eq_ok.2 ⟨spelled, hnumber, List.append_assoc ..⟩
  cut := by
    intro bytes more rest n h
    obtain ⟨⟨value, _⟩, hread, hparts⟩ := map_eq_ok.1 h
    cases hparts
    rw [decode]
    rcases cutAt_readDigits hread with ⟨left, hleft, rfl⟩ | ⟨fault, hfault, hrunsOut⟩
    · rw [hleft]
      exact .inl ⟨left, rfl, rfl⟩
    · rw [hfault]
      exact .inr ⟨fault, rfl, hrunsOut⟩

end DatedCounts.Varint

namespace DatedCounts.DateMap

open Encoding

theorem local_date (length : Nat) :
    Local fun rest =>
      if rest.length < length then .error (.shortDate rest.length length)
      else
        match Text.ofBytes (rest.take length) with
        | .ok date => .ok (date, rest.drop length)
        | .error fault => .error (.dateNotText fault) where
  extend := by
    intro bytes rest date h more
    split at h
    · cases h
    · next hlong =>
      have hle := Nat.le_of_not_lt hlong
      rw [if_neg (by rw [List.length_append]; omega), List.take_append_of_le_length hle,
        List.drop_append_of_le_length hle]
      split at h
      · cases h
        rfl
      · cases h
  cut := by
    intro bytes more rest date h
    rw [CutAt]
    split
    · exact .inr ⟨_, rfl, .shortDate ..⟩
    · next hlong =>
      have hle := Nat.le_of_not_lt hlong
      rw [if_neg (by rw [List.length_append]; omega), List.take_append_of_le_length hle,
        List.drop_append_of_le_length hle] at h
      split at h
      · cases h
        exact .inl ⟨_, rfl, rfl⟩
      · cases h

theorem local_decodeDate : Local decodeDate :=
  Varint.local_decode.bind fun length => local_date length.toNat

theorem local_decodeEntry (previous : Option Text) : Local (decodeEntry previous) := by
  apply local_decodeDate.bind
  intro date
  have hcount : Local fun rest => Varint.decode rest >>= fun read =>
      Except.ok ((date, read.1), read.2) :=
    Varint.local_decode.bind fun count => .ok (date, count)
  cases previous with
  | none => exact hcount
  | some before =>
    by_cases hbelow : (compare before date).isGE
    · simp only [if_pos hbelow]
      exact .error _
    · simp only [if_neg hbelow]
      exact hcount

theorem decodeEntries_succ (declared missing : Nat) (m : DateMap) (previous : Option Text) :
    decodeEntries declared (missing + 1) m previous = fun bytes =>
      if bytes.isEmpty then .error (.missingEntries declared (declared - (missing + 1)))
      else decodeEntry previous bytes >>= fun ((date, count), rest) =>
        decodeEntries declared missing (m.insert date count) (some date) rest := by
  funext bytes
  rw [decodeEntries]
  cases decodeEntry previous bytes <;> rfl

theorem local_decodeEntries (declared missing : Nat) (m : DateMap) (previous : Option Text) :
    Local (decodeEntries declared missing m previous) := by
  induction missing generalizing m previous with
  | zero => exact .ok m
  | succ missing ih =>
    rw [decodeEntries_succ]
    have hentry : Local fun bytes => decodeEntry previous bytes >>= fun ((date, count), rest) =>
        decodeEntries declared missing (m.insert date count) (some date) rest :=
      (local_decodeEntry previous).bind fun (date, count) => ih (m.insert date count) (some date)
    exact hentry.unlessEmpty (.missingEntries ..)

/-! ### Whole encodings -/

/-- If bytes are read as a map, the bytes that are left without the last of them run out. -/
theorem runsOut_of_decode {short more : Bytes} (hmore : more ≠ []) {m : DateMap}
    (h : decode (short ++ more) = .ok m) : ∃ fault, decode short = .error fault ∧ fault.RunsOut := by
  obtain ⟨declared, left, hdeclared, hentries⟩ := decode_eq_ok.1 h
  rcases Varint.local_decode.cut hdeclared with ⟨left, hleft, rfl⟩ | ⟨fault, hfault, hrunsOut⟩
  · rcases (local_decodeEntries ..).cut hentries with ⟨rest, _, hrest⟩ | ⟨fault, hfault, hrunsOut⟩
    · -- The entries take up all of the bytes, so the cut is among them.
      exact absurd (List.append_eq_nil_iff.1 hrest.symm).2 hmore
    · rw [decode, hleft]
      change ∃ fault, (decodeEntries _ _ _ _ _ >>= _) = _ ∧ _
      rw [hfault]
      exact ⟨fault, rfl, hrunsOut⟩
  · rw [decode, hfault]
    exact ⟨fault, rfl, hrunsOut⟩

theorem decode_append {bytes more : Bytes} (hmore : more ≠ []) {m : DateMap} (h : decode bytes = .ok m) :
    decode (bytes ++ more) = .error (.bytesAfterEntries more.length m.size) := by
  obtain ⟨declared, left, hdeclared, hentries⟩ := decode_eq_ok.1 h
  have hsize : declared.toNat = m.size := by
    obtain ⟨entries, _, hlength, hascend, _, _, rfl⟩ := decodeEntries_eq_ok_iff.1 hentries
    rw [← hlength, ← congrArg List.length (toList_foldl_insert hascend.1)]
    rfl
  rw [decode, Varint.local_decode.extend hdeclared more]
  change (decodeEntries _ _ _ _ _ >>= _) = _
  rw [(local_decodeEntries ..).extend hentries more, ← hsize]
  exact if_neg (by simpa using hmore)

/-- If bytes are read as a map, those that begin them run out, and those that they begin have bytes left
over. So no bytes that are read as a map begin others. -/
theorem decode_prefixFree {bytes : Bytes} {m : DateMap} (h : decode bytes = .ok m) :
    (∀ short, short <+: bytes → short ≠ bytes → ∃ fault, Rejects short fault ∧ fault.RunsOut) ∧
    (∀ more, more ≠ [] → Rejects (bytes ++ more) (.bytesAfterEntries more.length m.size)) ∧
    ∀ other n, decode other = .ok n → bytes <+: other → bytes = other := by
  refine ⟨?_, ?_, ?_⟩
  · intro short hshort hne
    obtain ⟨more, rfl⟩ := hshort
    have hmore := mt List.self_eq_append_right.2 hne
    obtain ⟨fault, hfault, hrunsOut⟩ := runsOut_of_decode hmore h
    exact ⟨fault, ⟨hfault, rfl⟩, hrunsOut⟩
  · intro more hmore
    exact ⟨decode_append hmore h, rfl⟩
  · intro other n hother hbegins
    obtain ⟨more, rfl⟩ := hbegins
    by_contra hne
    have hmore := mt List.self_eq_append_right.2 hne
    rw [decode_append hmore h] at hother
    cases hother

/-- Of a padded encoding, a beginning that ends within a count, and the encoding with a byte behind it. -/
theorem decode_prefixFree_padded : decode padded = .ok extremes ∧
    (∃ fault, Rejects (padded.take 10) fault ∧ fault.RunsOut) ∧
    Rejects (padded ++ [0]) (.bytesAfterEntries 1 2) := by
  have hdecode : decode padded = .ok extremes := by cbv
  obtain ⟨hshort, hlong, _⟩ := decode_prefixFree hdecode
  have hcut : padded.take 10 ≠ padded := by decide
  exact ⟨hdecode, hshort _ (List.take_prefix _ _) hcut, hlong [0] (List.cons_ne_nil _ _)⟩

end DatedCounts.DateMap
