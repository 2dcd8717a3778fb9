import DatedCounts.Text.Utf8

/-!
# Reading back UTF-8

Reading the bytes of a text gives the text, and bytes that are read without a fault are the bytes of
what was read. So a byte string is the encoding of at most one text.
-/

namespace DatedCounts.Utf8

/-- The bytes of an unfinished character, one case for each length and number of bytes read. -/
private inductive Begun : Bytes → Partial → Prop where
  | oneOfTwo (a : UInt8) (bits : Nat) : a.toNat = 0xC0 + bits → 2 ≤ bits → bits < 32 →
      Begun [a] ⟨1, 1, 0x80, 0xBF, bits⟩
  | oneOfThree (a : UInt8) (bits low high : Nat) : a.toNat = 0xE0 + bits → bits < 16 →
      0x80 ≤ low → high ≤ 0xBF → (bits = 0 → low = 0xA0) → (bits = 13 → high = 0x9F) →
      Begun [a] ⟨1, 2, low, high, bits⟩
  | twoOfThree (a b : UInt8) (bits : Nat) : a.toNat = 0xE0 + bits / 64 →
      b.toNat = 0x80 + bits % 64 → 0x20 ≤ bits → bits < 1024 → (bits < 0x360 ∨ 0x380 ≤ bits) →
      Begun [a, b] ⟨2, 1, 0x80, 0xBF, bits⟩
  | oneOfFour (a : UInt8) (bits low high : Nat) : a.toNat = 0xF0 + bits → bits < 5 →
      0x80 ≤ low → high ≤ 0xBF → (bits = 0 → low = 0x90) → (bits = 4 → high = 0x8F) →
      Begun [a] ⟨1, 3, low, high, bits⟩
  | twoOfFour (a b : UInt8) (bits : Nat) : a.toNat = 0xF0 + bits / 64 →
      b.toNat = 0x80 + bits % 64 → 0x10 ≤ bits → bits < 0x110 →
      Begun [a, b] ⟨2, 2, 0x80, 0xBF, bits⟩
  | threeOfFour (a b c : UInt8) (bits : Nat) : a.toNat = 0xF0 + bits / 4096 →
      b.toNat = 0x80 + bits / 64 % 64 → c.toNat = 0x80 + bits % 64 → 0x400 ≤ bits →
      bits < 0x4400 → Begun [a, b, c] ⟨3, 1, 0x80, 0xBF, bits⟩

private theorem toNat_ofNat_of_valid {n : Nat} (h : n < 0xD800 ∨ 0xDFFF < n ∧ n < 0x110000) :
    (Char.ofNat n).toNat = n := by
  have hvalid : n.isValidChar := by
    unfold Nat.isValidChar
    omega
  rw [Char.ofNat, dif_pos hvalid]
  rfl

private theorem byte_eq {a : UInt8} {n : Nat} (h : a.toNat = n) : UInt8.ofNat n = a := by
  subst h
  exact UInt8.ofNat_toNat

private theorem encodeChar_two {c : Char} {n : Nat} (hn : c.toNat = n) (hlow : 0x80 ≤ n)
    (hhigh : n < 0x800) : encodeChar c = [.ofNat (0xC0 + n / 64), .ofNat (0x80 + n % 64)] := by
  simp [encodeChar, hn, hhigh, Nat.not_lt.2 hlow]

private theorem encodeChar_three {c : Char} {n : Nat} (hn : c.toNat = n) (hlow : 0x800 ≤ n)
    (hhigh : n < 0x10000) :
    encodeChar c = [.ofNat (0xE0 + n / 4096), .ofNat (0x80 + n / 64 % 64), .ofNat (0x80 + n % 64)] := by
  simp [encodeChar, hn, hhigh, Nat.not_lt.2 hlow, show ¬ n < 0x80 by omega]

private theorem encodeChar_four {c : Char} {n : Nat} (hn : c.toNat = n) (hlow : 0x10000 ≤ n) :
    encodeChar c = [.ofNat (0xF0 + n / 262144), .ofNat (0x80 + n / 4096 % 64),
      .ofNat (0x80 + n / 64 % 64), .ofNat (0x80 + n % 64)] := by
  simp [encodeChar, hn, Nat.not_lt.2 hlow, show ¬ n < 0x80 by omega, show ¬ n < 0x800 by omega]

private theorem encodeChar_of_opening {byte : UInt8} {c : Char}
    (h : opening byte = .single c) : encodeChar c = [byte] := by
  simp only [opening] at h
  repeat' split at h
  all_goals cases h
  next hlt =>
    have hn := toNat_ofNat_of_valid (n := byte.toNat) (by omega)
    simp [encodeChar, hn, hlt]

private theorem begun_of_opening {byte : UInt8} {p : Partial} (h : opening byte = .opens p) :
    Begun [byte] p := by
  simp only [opening] at h
  repeat' split at h
  all_goals cases h
  · exact .oneOfTwo _ _ (by omega) (by omega) (by omega)
  · exact .oneOfThree _ _ _ _ (by omega) (by omega) (by omega) (by omega) (by omega) (by omega)
  · exact .oneOfThree _ _ _ _ (by omega) (by omega) (by omega) (by omega) (by omega) (by omega)
  · exact .oneOfThree _ _ _ _ (by omega) (by omega) (by omega) (by omega) (by omega) (by omega)
  · exact .oneOfFour _ _ _ _ (by omega) (by omega) (by omega) (by omega) (by omega) (by omega)
  · exact .oneOfFour _ _ _ _ (by omega) (by omega) (by omega) (by omega) (by omega) (by omega)
  · exact .oneOfFour _ _ _ _ (by omega) (by omega) (by omega) (by omega) (by omega) (by omega)

private theorem begun_of_extends {read : Bytes} {p q : Partial} {byte : UInt8} (hp : Begun read p)
    (h : p.continuation byte = .extends q) : Begun (read ++ [byte]) q := by
  cases hp <;> simp only [Partial.continuation] at h <;> split at h <;>
    simp only [Nat.reduceEqDiff, ↓reduceIte, Continuation.extends.injEq, reduceCtorEq] at h
  all_goals subst h
  · exact .twoOfThree _ _ _ (by omega) (by omega) (by omega) (by omega) (by omega)
  · exact .twoOfFour _ _ _ (by omega) (by omega) (by omega) (by omega)
  · exact .threeOfFour _ _ _ _ (by omega) (by omega) (by omega) (by omega) (by omega)

private theorem encodeChar_of_completes {read : Bytes} {p : Partial} {byte : UInt8} {c : Char}
    (hp : Begun read p) (h : p.continuation byte = .completes c) :
    encodeChar c = read ++ [byte] := by
  cases hp <;> simp only [Partial.continuation] at h <;> split at h <;>
    simp only [Nat.reduceEqDiff, ↓reduceIte, Continuation.completes.injEq, reduceCtorEq] at h
  all_goals subst h
  · rw [encodeChar_two (toNat_ofNat_of_valid (by omega)) (by omega) (by omega)]
    simp only [List.cons_append, List.nil_append, List.cons.injEq, and_true]
    exact ⟨byte_eq (by omega), byte_eq (by omega)⟩
  · rw [encodeChar_three (toNat_ofNat_of_valid (by omega)) (by omega) (by omega)]
    simp only [List.cons_append, List.nil_append, List.cons.injEq, and_true]
    exact ⟨byte_eq (by omega), byte_eq (by omega), byte_eq (by omega)⟩
  · rw [encodeChar_four (toNat_ofNat_of_valid (by omega)) (by omega)]
    simp only [List.cons_append, List.nil_append, List.cons.injEq, and_true]
    exact ⟨byte_eq (by omega), byte_eq (by omega), byte_eq (by omega), byte_eq (by omega)⟩

private theorem encode_cons (c : Char) (cs : List Char) : encode (c :: cs) = encodeChar c ++ encode cs :=
  rfl

private theorem encode_of_decodeFrom (bytes : Bytes) :
    ∀ (index : Nat) (cs : List Char),
      (decodeFrom index none bytes = .ok cs → encode cs = bytes) ∧
      ∀ read p, Begun read p → decodeFrom index (some p) bytes = .ok cs →
        encode cs = read ++ bytes := by
  induction bytes with
  | nil =>
    intro index cs
    constructor
    · intro h
      simp only [decodeFrom, Except.ok.injEq] at h
      subst h
      rfl
    · intro read p _ h
      simp [decodeFrom] at h
  | cons byte rest ih =>
    intro index cs
    constructor
    · intro h
      simp only [decodeFrom] at h
      split at h
      · next c hopen =>
        cases hrest : decodeFrom (index + 1) none rest with
        | error _ => simp [hrest, Except.map] at h
        | ok tail =>
          simp only [hrest, Except.map, Except.ok.injEq] at h
          subst h
          rw [encode_cons, encodeChar_of_opening hopen, (ih _ _).1 hrest]
          rfl
      · next p hopen => exact (ih _ _).2 _ _ (begun_of_opening hopen) h
      · cases h
    · intro read p hp h
      simp only [decodeFrom] at h
      split at h
      · next c hnext =>
        cases hrest : decodeFrom (index + 1) none rest with
        | error _ => simp [hrest, Except.map] at h
        | ok tail =>
          simp only [hrest, Except.map, Except.ok.injEq] at h
          subst h
          rw [encode_cons, encodeChar_of_completes hp hnext, (ih _ _).1 hrest]
          simp
      · next q hnext =>
        rw [(ih _ _).2 _ _ (begun_of_extends hp hnext) h]
        simp
      · cases h

/-- Bytes that are read without a fault are the bytes of what was read. -/
theorem encode_of_decode {bytes : Bytes} {cs : List Char} (h : decode bytes = .ok cs) :
    encode cs = bytes :=
  (encode_of_decodeFrom bytes 0 cs).1 h

/-! ### Reading what was written -/

private theorem opening_two : ∀ n < 32, 2 ≤ n →
    opening (.ofNat (0xC0 + n)) = .opens ⟨1, 1, 0x80, 0xBF, n⟩ := by decide

private theorem opening_three : ∀ n < 16, opening (.ofNat (0xE0 + n)) =
    .opens ⟨1, 2, if n = 0 then 0xA0 else 0x80, if n = 13 then 0x9F else 0xBF, n⟩ := by decide

private theorem opening_four : ∀ n < 5, opening (.ofNat (0xF0 + n)) =
    .opens ⟨1, 3, if n = 0 then 0x90 else 0x80, if n = 4 then 0x8F else 0xBF, n⟩ := by decide

private theorem toNat_byte {n : Nat} (h : n < 64) : (UInt8.ofNat (0x80 + n)).toNat = 0x80 + n := by
  rw [UInt8.toNat_ofNat', Nat.mod_eq_of_lt (by omega)]

private theorem continuation_last {seen low high bits n : Nat} (h : n < 64) (hlow : low ≤ 0x80 + n)
    (hhigh : 0x80 + n ≤ high) :
    Partial.continuation ⟨seen, 1, low, high, bits⟩ (.ofNat (0x80 + n)) =
      .completes (.ofNat (bits * 64 + n)) := by
  simp only [Partial.continuation, toNat_byte h]
  rw [if_neg (by omega)]
  simp

private theorem continuation_more {seen owed low high bits n : Nat} (h : n < 64)
    (hlow : low ≤ 0x80 + n) (hhigh : 0x80 + n ≤ high) :
    Partial.continuation ⟨seen, owed + 2, low, high, bits⟩ (.ofNat (0x80 + n)) =
      .extends ⟨seen + 1, owed + 1, 0x80, 0xBF, bits * 64 + n⟩ := by
  simp only [Partial.continuation, toNat_byte h]
  rw [if_neg (by omega)]
  simp

private theorem decodeFrom_encodeChar (c : Char) (index : Nat) (rest : Bytes) :
    ∃ index', decodeFrom index none (encodeChar c ++ rest) =
      (decodeFrom index' none rest).map (c :: ·) := by
  have hvalid : c.toNat < 0xD800 ∨ 0xDFFF < c.toNat ∧ c.toNat < 0x110000 := c.valid
  have hself : Char.ofNat c.toNat = c := Char.ofNat_toNat c
  by_cases h1 : c.toNat < 0x80
  · refine ⟨index + 1, ?_⟩
    have hbyte : (UInt8.ofNat c.toNat).toNat = c.toNat := by
      rw [UInt8.toNat_ofNat', Nat.mod_eq_of_lt (by omega)]
    simp [encodeChar, h1, decodeFrom, opening, hbyte, hself]
  by_cases h2 : c.toNat < 0x800
  · refine ⟨index + 2, ?_⟩
    rw [encodeChar_two rfl (by omega) h2]
    simp only [List.cons_append, List.nil_append, decodeFrom]
    rw [opening_two _ (by omega) (by omega)]
    simp only
    rw [continuation_last (by omega) (by omega) (by omega)]
    simp only [show c.toNat / 64 * 64 + c.toNat % 64 = c.toNat by omega, hself]
  by_cases h3 : c.toNat < 0x10000
  · refine ⟨index + 3, ?_⟩
    rw [encodeChar_three rfl (by omega) h3]
    simp only [List.cons_append, List.nil_append, decodeFrom]
    rw [opening_three _ (by omega)]
    simp only
    rw [continuation_more (by omega) (by split <;> omega) (by split <;> omega)]
    simp only
    rw [continuation_last (by omega) (by omega) (by omega)]
    simp only [show (c.toNat / 4096 * 64 + c.toNat / 64 % 64) * 64 + c.toNat % 64 = c.toNat by omega,
      hself]
  · refine ⟨index + 4, ?_⟩
    rw [encodeChar_four rfl (by omega)]
    simp only [List.cons_append, List.nil_append, decodeFrom]
    rw [opening_four _ (by omega)]
    simp only
    rw [continuation_more (by omega) (by split <;> omega) (by split <;> omega)]
    simp only
    rw [continuation_more (by omega) (by omega) (by omega)]
    simp only
    rw [continuation_last (by omega) (by omega) (by omega)]
    simp only [show ((c.toNat / 262144 * 64 + c.toNat / 4096 % 64) * 64 + c.toNat / 64 % 64) * 64
      + c.toNat % 64 = c.toNat by omega, hself]

private theorem decodeFrom_encode (cs : List Char) (index : Nat) :
    decodeFrom index none (encode cs) = .ok cs := by
  induction cs generalizing index with
  | nil => rfl
  | cons c cs ih =>
    obtain ⟨index', hindex⟩ := decodeFrom_encodeChar c index (encode cs)
    rw [encode_cons, hindex, ih]
    rfl

/-- Every text is read back from its bytes. -/
theorem decode_encode (cs : List Char) : decode (encode cs) = .ok cs := decodeFrom_encode cs 0

private theorem exists_of_map_cons {c : Char} {read : Except Fault (List Char)} {cs : List Char}
    (h : read.map (c :: ·) = .ok cs) : ∃ rest, read = .ok rest ∧ c :: rest = cs := by
  cases read with
  | error => cases h
  | ok rest => exact ⟨rest, rfl, Except.ok.inj h⟩

private theorem lossyFrom_of_decodeFrom {index : Nat} {p : Option Partial} {bytes : Bytes}
    {cs : List Char} (h : decodeFrom index p bytes = .ok cs) : lossyFrom p bytes = cs := by
  fun_induction decodeFrom index p bytes generalizing cs with
  | case1 =>
    cases h
    rfl
  | case3 index byte rest c hopen ih =>
    obtain ⟨left, hleft, rfl⟩ := exists_of_map_cons h
    rw [lossyFrom, hopen, ← ih hleft]
  | case4 index byte rest p hopen ih =>
    rw [lossyFrom, hopen]
    exact ih h
  | case6 index p byte rest c hnext ih =>
    obtain ⟨left, hleft, rfl⟩ := exists_of_map_cons h
    rw [lossyFrom, hnext, ← ih hleft]
  | case7 index p byte rest q hnext ih =>
    rw [lossyFrom, hnext]
    exact ih h
  | case2 | case5 | case8 => cases h

/-- Reading what has no fault needs no replacement. -/
theorem lossy_encode (cs : List Char) : lossy (encode cs) = .ofList cs :=
  congrArg String.ofList (lossyFrom_of_decodeFrom (decode_encode cs))

end DatedCounts.Utf8
