import DatedCounts.Proofs.Calendar.Digits
import DatedCounts.Proofs.Text.Encoded

/-!
# Numbers of a fixed width

The last digits of a number, as many as are asked for, are as many digits whose value is the number, if it has
no more than that. With the same number of digits, the order of the numbers is that of their digits as bytes.
-/

namespace DatedCounts

/-- Strings of one length decide before what stands behind them does. -/
theorem Bytes.compare_append {a b : Bytes} (h : a.length = b.length) (x y : Bytes) :
    compare (a ++ x) (b ++ y) = (compare a b).then (compare x y) := by
  induction a generalizing b with
  | nil =>
    obtain rfl : b = [] := List.length_eq_zero_iff.1 h.symm
    rfl
  | cons first a ih =>
    cases b with
    | nil => cases h
    | cons other b =>
      have hrest := ih (Nat.succ.inj h)
      rw [List.cons_append, List.cons_append, List.compare_cons_cons, List.compare_cons_cons, hrest,
        Ordering.then_assoc]

namespace Date

def value (cs : List Char) : Nat := Nat.ofDigitChars 10 cs 0

theorem length_lastDigits (width n : Nat) : (lastDigits width n).length = width := by
  induction width generalizing n with
  | zero => rfl
  | succ width ih => rw [lastDigits, List.length_append, ih, List.length_singleton]

theorem isDigit_of_mem_lastDigits {width n : Nat} {c : Char} (h : c ∈ lastDigits width n) :
    c.isDigit := by
  induction width generalizing n with
  | zero => cases h
  | succ width ih =>
    rcases List.mem_append.1 h with hfront | hlast
    · exact ih hfront
    · rw [List.mem_singleton.1 hlast, Nat.isDigit_digitChar]
      exact decide_eq_true (Nat.mod_lt n (by omega))

theorem value_append_digitChar {d : Nat} (hd : d < 10) (cs : List Char) :
    value (cs ++ [Nat.digitChar d]) = 10 * value cs + d := by
  rw [value, Nat.ofDigitChars_append, Nat.ofDigitChars_cons_digitChar_of_lt_ten hd,
    Nat.ofDigitChars_nil, value]

theorem value_lastDigits {width n : Nat} (h : n < 10 ^ width) : value (lastDigits width n) = n := by
  induction width generalizing n with
  | zero =>
    obtain rfl : n = 0 := by omega
    rfl
  | succ width ih =>
    have hfront : n / 10 < 10 ^ width := by
      rw [Nat.pow_succ] at h
      omega
    rw [lastDigits, value_append_digitChar (Nat.mod_lt n (by omega)), ih hfront]
    omega

theorem exists_digitChar {c : Char} (h : c.isDigit) : ∃ d, d < 10 ∧ Nat.digitChar d = c := by
  rw [Char.isDigit, Bool.and_eq_true, decide_eq_true_iff, decide_eq_true_iff] at h
  exact ⟨_, Numeral.digit?_eq_some (if_pos h)⟩

theorem lastDigits_value {cs : List Char} (h : ∀ c ∈ cs, c.isDigit) :
    lastDigits cs.length (value cs) = cs := by
  induction cs using List.reverseRecOn with
  | nil => rfl
  | append_singleton cs c ih =>
    obtain ⟨d, hd, rfl⟩ := exists_digitChar (h c (by simp))
    have hfront := ih fun c hc => h c (List.mem_append_left _ hc)
    rw [List.length_append, List.length_singleton, value_append_digitChar hd, Nat.mul_comm,
      lastDigits_append hd, hfront]

theorem value_lt {cs : List Char} (h : ∀ c ∈ cs, c.isDigit) : value cs < 10 ^ cs.length := by
  induction cs using List.reverseRecOn with
  | nil => exact Nat.one_pos
  | append_singleton cs c ih =>
    obtain ⟨d, hd, rfl⟩ := exists_digitChar (h c (by simp))
    have hfront := ih fun c hc => h c (List.mem_append_left _ hc)
    rw [List.length_append, List.length_singleton, value_append_digitChar hd, Nat.pow_succ]
    omega

/-! ### The order of the digits -/

private theorem encode_digitChar {d : Nat} (h : d < 10) :
    Utf8.encode [Nat.digitChar d] = [.ofNat (48 + d)] := by
  decide +revert

theorem length_encode_lastDigits (width n : Nat) :
    (Utf8.encode (lastDigits width n)).length = width := by
  induction width generalizing n with
  | zero => rfl
  | succ width ih =>
    rw [lastDigits, Utf8.encode_append, List.length_append, ih,
      encode_digitChar (Nat.mod_lt n (by omega)), List.length_singleton]

theorem digit_of_mem_encode_lastDigits {width n : Nat} {b : UInt8}
    (h : b ∈ Utf8.encode (lastDigits width n)) : 0x30 ≤ b ∧ b ≤ 0x39 := by
  have hdigit : ∀ d < 10, 0x30 ≤ UInt8.ofNat (48 + d) ∧ UInt8.ofNat (48 + d) ≤ 0x39 := by decide
  induction width generalizing n with
  | zero => cases h
  | succ width ih =>
    have hlast : n % 10 < 10 := Nat.mod_lt n (by omega)
    rw [lastDigits, Utf8.encode_append, encode_digitChar hlast, List.mem_append,
      List.mem_singleton] at h
    rcases h with hfront | rfl
    · exact ih hfront
    · exact hdigit _ hlast

private theorem compare_digit {a b : Nat} (ha : a < 10) (hb : b < 10) :
    compare ([.ofNat (48 + a)] : Bytes) [.ofNat (48 + b)] = compare a b := by
  have hall : ∀ a < 10, ∀ b < 10,
      compare ([.ofNat (48 + a)] : Bytes) [.ofNat (48 + b)] = compare a b := by decide
  exact hall a ha b hb

private theorem compare_div_then_mod (m n : Nat) :
    (compare (m / 10) (n / 10)).then (compare (m % 10) (n % 10)) = compare m n := by
  rcases Nat.lt_trichotomy m n with hlt | rfl | hgt
  · rw [Nat.compare_eq_lt.2 hlt, Ordering.then_eq_lt, Nat.compare_eq_lt, Nat.compare_eq_eq,
      Nat.compare_eq_lt]
    omega
  · simp
  · rw [Nat.compare_eq_gt.2 hgt, Ordering.then_eq_gt, Nat.compare_eq_gt, Nat.compare_eq_eq,
      Nat.compare_eq_gt]
    omega

/-- Numbers are in the order of their digits as bytes. -/
theorem compare_lastDigits {width m n : Nat} (hm : m < 10 ^ width) (hn : n < 10 ^ width) :
    compare (Utf8.encode (lastDigits width m)) (Utf8.encode (lastDigits width n)) = compare m n := by
  induction width generalizing m n with
  | zero =>
    obtain ⟨rfl, rfl⟩ : m = 0 ∧ n = 0 := by omega
    rfl
  | succ width ih =>
    rw [Nat.pow_succ] at hm hn
    have hfront := ih (m := m / 10) (n := n / 10) (by omega) (by omega)
    have hm10 : m % 10 < 10 := Nat.mod_lt m (by omega)
    have hn10 : n % 10 < 10 := Nat.mod_lt n (by omega)
    rw [lastDigits, lastDigits, Utf8.encode_append, Utf8.encode_append,
      Bytes.compare_append (by rw [length_encode_lastDigits, length_encode_lastDigits]), hfront,
      encode_digitChar hm10, encode_digitChar hn10, compare_digit hm10 hn10, compare_div_then_mod]

end Date

end DatedCounts
