import DatedCounts.Text.Utf8.RoundTrip

/-!
# Texts

Dates are kept as text. A text is held as its UTF-8 bytes, and texts are ordered by their bytes.
-/

namespace DatedCounts

/-- A byte string that is the UTF-8 form of some characters. -/
structure Text where
  bytes : Bytes
  isEncoding : ∃ cs, Utf8.encode cs = bytes

namespace Text

@[ext] theorem ext {s t : Text} (h : s.bytes = t.bytes) : s = t := by
  cases s
  cases t
  simp_all

instance : DecidableEq Text := fun s t =>
  decidable_of_iff (s.bytes = t.bytes) ⟨Text.ext, fun h => h ▸ rfl⟩

instance : Ord Text := ⟨compareOn Text.bytes⟩

instance : Std.TransOrd Text := inferInstanceAs (Std.TransCmp (compareOn Text.bytes))

instance : Std.LawfulEqOrd Text where
  eq_of_compare h := Text.ext (Std.LawfulEqCmp.eq_of_compare h)

def ofChars (cs : List Char) : Text := ⟨Utf8.encode cs, cs, rfl⟩

def ofString (s : String) : Text := ofChars s.toList

/-- The text with the given bytes, if they are well formed. -/
def ofBytes (bytes : Bytes) : Except Utf8.Fault Text :=
  match h : Utf8.decode bytes with
  | .ok cs => .ok ⟨bytes, cs, Utf8.encode_of_decode h⟩
  | .error fault => .error fault

def chars (t : Text) : List Char :=
  match Utf8.decode t.bytes with
  | .ok cs => cs
  | .error _ => []

def toString (t : Text) : String := .ofList t.chars

instance : ToString Text := ⟨toString⟩
instance : Inhabited Text := ⟨ofChars []⟩

theorem decode_bytes (t : Text) : Utf8.decode t.bytes = .ok t.chars := by
  obtain ⟨bytes, cs, rfl⟩ := t
  simp [chars, Utf8.decode_encode]

theorem encode_chars (t : Text) : Utf8.encode t.chars = t.bytes :=
  Utf8.encode_of_decode t.decode_bytes

@[simp] theorem chars_ofChars (cs : List Char) : (ofChars cs).chars = cs := by
  have h := (ofChars cs).decode_bytes
  simp only [ofChars, Utf8.decode_encode, Except.ok.injEq] at h
  exact h.symm

theorem ofBytes_bytes (t : Text) : ofBytes t.bytes = .ok t := by
  have h := t.decode_bytes
  simp only [ofBytes]
  split
  · rfl
  · simp_all

end Text

end DatedCounts
