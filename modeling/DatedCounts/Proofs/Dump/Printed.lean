import DatedCounts.Proofs.DateMap.Sum
import DatedCounts.Proofs.Dump.Lines
import DatedCounts.Proofs.Text.Numeral

/-!
# Printed records

A record of texts is printed as a line of seven fields. The loader cuts at the tabs and the line breaks, trims
the line and the numbers in it, cuts the counts of a map at the commas and adds them up again. All that gives
the record back, as long as no text has a tab or a line break in it, the row does not begin with `#` and the
dates of a map have none of the characters that part one count from the next.
-/

namespace DatedCounts

theorem Text.ofChars_chars (t : Text) : ofChars t.chars = t := Text.ext t.encode_chars

/-! ### Printed maps -/

namespace DateMap

/-- Adding up the counts of a map gives the map. -/
theorem ofList_toList (m : DateMap) : ofList m.toList = m := empty_merge m

def printEntry (entry : Text × Count) : List Char :=
  entry.1.chars ++ ':' :: Nat.toDigits 10 entry.2.toNat

theorem toList_render (m : DateMap) :
    m.render.toList = [','].intercalate (m.toList.map printEntry) := by
  have hentry : ∀ entry : Text × Count,
      s!"{entry.1}:{entry.2.toNat}".toList = printEntry entry := by
    intro entry
    simp [printEntry, toString, Text.toString, String.toList_append]
  rw [render, String.toList_intercalate, List.map_map]
  exact congrArg _ (List.map_congr_left fun entry _ => hentry entry)

end DateMap

namespace Dump

/-- Whether a text can be a field of a line. -/
def FitsField (cs : List Char) : Prop := '\t' ∉ cs ∧ '\n' ∉ cs

instance (cs : List Char) : Decidable (FitsField cs) :=
  inferInstanceAs (Decidable ('\t' ∉ cs ∧ '\n' ∉ cs))

/-- Whether a text can be a date in a list of counts. -/
@[mk_iff]
structure FitsList (date : List Char) : Prop where
  field : FitsField date
  noComma : ',' ∉ date
  noColon : ':' ∉ date
  head : ¬ date.head?.any isBlank

instance (date : List Char) : Decidable (FitsList date) :=
  decidable_of_iff _ (fitsList_iff date).symm

/-! ### Records of texts -/

/-- What a printed record holds: the counts of a map, or one count and its date. -/
inductive Holding where
  | counts (m : DateMap)
  | count (date : List Char) (n : Count)

namespace Holding

def date : Holding → List Char
  | counts _ => []
  | count date _ => date

def print : Holding → List Char
  | counts m => m.render.toList
  | count _ n => (toString n.toNat).toList

def qualifier (datatype : List Char) : Holding → Qualifier
  | counts _ => .aggregated (Utf8.encode datatype)
  | count date _ => .raw (Utf8.encode datatype) (Utf8.encode date)

def value : Holding → Bytes
  | counts m => m.encode
  | count _ n => n.encode

/-- Whether the dates can be told from what is printed around them. -/
def Printable : Holding → Prop
  | counts m => ∀ entry ∈ m.toList, FitsList entry.1.chars
  | count date _ => date ≠ [] ∧ FitsField date

instance : (holding : Holding) → Decidable holding.Printable
  | counts m => inferInstanceAs (Decidable (∀ entry ∈ m.toList, FitsList entry.1.chars))
  | count date _ => inferInstanceAs (Decidable (date ≠ [] ∧ FitsField date))

end Holding

/-- A record of which the parts of the key are texts. -/
structure TextRecord where
  row : List Char
  family : List Char
  datatype : List Char
  visibility : List Char
  timestamp : UInt64
  holding : Holding

namespace TextRecord

variable (r : TextRecord)

def toRecord : Record :=
  (⟨Utf8.encode r.row, Utf8.encode r.family, (r.holding.qualifier r.datatype).toBytes,
    Utf8.encode r.visibility, r.timestamp⟩, r.holding.value)

def fields : Fields where
  row := r.row
  family := r.family
  datatype := r.datatype
  date := r.holding.date
  visibility := r.visibility
  timestamp := (toString r.timestamp.toNat).toList
  value := r.holding.print

def line : List Char := ['\t'].intercalate r.fields.toList

@[mk_iff]
structure Printable : Prop where
  fields : ∀ field ∈ [r.row, r.family, r.datatype, r.visibility], FitsField field
  row : r.row.head? ≠ some '#'
  holding : r.holding.Printable

instance : Decidable r.Printable := decidable_of_iff _ (printable_iff r).symm

end TextRecord

/-! ### What is in a printed text -/

theorem notMem_toDigits {c : Char} (h : ¬ c.isDigit) (n : Nat) : c ∉ Nat.toDigits 10 n :=
  fun hc => h (isDigit_of_mem_toDigits hc)

theorem fitsField_toDigits (n : Nat) : FitsField (Nat.toDigits 10 n) :=
  ⟨notMem_toDigits (by decide) n, notMem_toDigits (by decide) n⟩

section Items

variable {entry : Text × Count} {m : DateMap} {c : Char}

theorem notMem_printEntry (hdate : c ∉ entry.1.chars) (hcolon : c ≠ ':') (hdigit : ¬ c.isDigit) :
    c ∉ DateMap.printEntry entry := by
  rw [DateMap.printEntry, List.mem_append, List.mem_cons]
  rintro (hmem | hmem | hmem)
  · exact hdate hmem
  · exact hcolon hmem
  · exact notMem_toDigits hdigit _ hmem

theorem fitsField_render (h : ∀ entry ∈ m.toList, FitsList entry.1.chars) :
    FitsField m.render.toList := by
  have hnot : ∀ c, c ≠ ',' → c ≠ ':' → ¬ c.isDigit → (∀ entry ∈ m.toList, c ∉ entry.1.chars) →
      c ∉ m.render.toList := by
    intro c hcomma hcolon hdigit hdates
    rw [DateMap.toList_render]
    refine notMem_intercalate hcomma fun item hitem => ?_
    obtain ⟨entry, hentry, rfl⟩ := List.mem_map.1 hitem
    exact notMem_printEntry (hdates entry hentry) hcolon hdigit
  exact ⟨hnot '\t' (by decide) (by decide) (by decide) fun entry hentry => (h entry hentry).field.1,
    hnot '\n' (by decide) (by decide) (by decide) fun entry hentry => (h entry hentry).field.2⟩

/-! ### The items of a printed map -/

theorem not_isBlank_of_mem_head?_printEntry (h : FitsList entry.1.chars) :
    ∀ c ∈ (DateMap.printEntry entry).head?, ¬ isBlank c := by
  intro c hc
  have hhead := h.head
  rw [DateMap.printEntry] at hc
  cases hdate : entry.1.chars with
  | nil =>
    rw [hdate] at hc
    obtain rfl : ':' = c := Option.some.inj hc
    decide
  | cons first rest =>
    rw [hdate] at hc hhead
    obtain rfl : first = c := Option.some.inj hc
    exact hhead

/-- What is printed ends in the last digit of the count. -/
theorem isDigit_of_mem_getLast?_printEntry :
    ∀ c ∈ (DateMap.printEntry entry).getLast?, c.isDigit := by
  intro c hc
  obtain ⟨digit, rest, hdigits⟩ :=
    List.exists_cons_of_ne_nil (Nat.toDigits_ne_nil (n := entry.2.toNat) (b := 10))
  rw [DateMap.printEntry, hdigits, List.getLast?_append_cons, List.getLast?_cons_cons, ← hdigits] at hc
  exact isDigit_of_mem_toDigits (List.mem_of_mem_getLast? hc)

theorem isItem_printEntry (h : FitsList entry.1.chars) : Options.IsItem (DateMap.printEntry entry) where
  ne_nil := by simp [DateMap.printEntry]
  bare := ⟨not_isBlank_of_mem_head?_printEntry h,
    fun c hc => not_isBlank_of_isDigit (isDigit_of_mem_getLast?_printEntry c hc)⟩
  noComma := notMem_printEntry h.noComma (by decide) (by decide)

theorem isEntry_printEntry (h : FitsList entry.1.chars) : IsEntry (DateMap.printEntry entry) entry :=
  ⟨entry.1.chars, _, rfl, h.noColon, entry.1.ofChars_chars.symm, Numeral.parse_toDigits_toNat entry.2⟩

theorem entries_of_render (h : ∀ entry ∈ m.toList, FitsList entry.1.chars) :
    List.Forall₂ IsEntry (Options.listItems m.render.toList) m.toList := by
  have hitems : Options.listItems m.render.toList = m.toList.map DateMap.printEntry := by
    rw [DateMap.toList_render, Options.listItems_intercalate, List.flatMap_map,
      List.flatMap_congr fun entry hentry =>
        Options.listItems_of_isItem (isItem_printEntry (h entry hentry)), ← List.map_eq_flatMap]
  rw [hitems, List.forall₂_map_left_iff, List.forall₂_same]
  exact fun entry hentry => isEntry_printEntry (h entry hentry)

end Items

/-! ### Fields of records -/

namespace Holding

variable {holding : Holding}

theorem qualifier_eq (h : holding.Printable) (datatype : List Char) : holding.qualifier datatype =
    if holding.date = [] then .aggregated (Utf8.encode datatype)
    else .raw (Utf8.encode datatype) (Utf8.encode holding.date) := by
  cases holding with
  | counts m => rfl
  | count date n => exact (if_neg h.1).symm

theorem entries_of_print (h : holding.Printable) (hdate : holding.date = []) : ∃ entries,
    List.Forall₂ IsEntry (Options.listItems holding.print) entries ∧
      holding.value = (DateMap.ofList entries).encode := by
  cases holding with
  | counts m => exact ⟨m.toList, entries_of_render h, congrArg DateMap.encode m.ofList_toList.symm⟩
  | count date n => exact absurd hdate h.1

theorem count_of_print (hdate : holding.date ≠ []) : ∃ count,
    Numeral.parse (trimBlank holding.print) = .ok count ∧ holding.value = Count.encode count := by
  cases holding with
  | counts m => exact absurd rfl hdate
  | count date n => exact ⟨n, Numeral.parse_trimBlank_toString n, rfl⟩

theorem ne_return_of_mem_getLast? : ∀ c ∈ holding.print.getLast?, c ≠ '\r' := by
  intro c hc
  cases holding with
  | counts m =>
    rw [print, DateMap.toList_render] at hc
    obtain rfl | ⟨item, hitem, hlast⟩ := of_mem_getLast?_intercalate hc
    · decide
    · obtain ⟨entry, _, rfl⟩ := List.mem_map.1 hitem
      rintro rfl
      exact absurd (isDigit_of_mem_getLast?_printEntry _ hlast) (by decide)
  | count date n =>
    rw [print, toList_toString] at hc
    rintro rfl
    exact absurd (isDigit_of_mem_toDigits (List.mem_of_mem_getLast? hc)) (by decide)

theorem fitsField_date (h : holding.Printable) : FitsField holding.date := by
  cases holding with
  | counts m => exact ⟨List.not_mem_nil, List.not_mem_nil⟩
  | count date n => exact h.2

theorem fitsField_print (h : holding.Printable) : FitsField holding.print := by
  cases holding with
  | counts m => exact fitsField_render h
  | count date n =>
    rw [print, toList_toString]
    exact fitsField_toDigits _

end Holding

namespace TextRecord

variable {r : TextRecord}

/-- The fields of a printed record give the record. -/
theorem fields_gives (h : r.Printable) : r.fields.Gives r.toRecord where
  row := rfl
  family := rfl
  qualifier := congrArg Qualifier.toBytes (Holding.qualifier_eq h.holding r.datatype)
  visibility := rfl
  timestamp := Numeral.parse_trimBlank_toString r.timestamp
  counts := Holding.entries_of_print h.holding
  count := Holding.count_of_print

theorem fitsField_of_mem (h : r.Printable) : ∀ field ∈ r.fields.toList, FitsField field := by
  simpa [Fields.toList, fields, fitsField_toDigits, Holding.fitsField_date h.holding,
    Holding.fitsField_print h.holding] using h.fields

theorem pieces_line (h : r.Printable) : pieces '\t' r.line = r.fields.toList :=
  pieces_intercalate_of_notMem (List.cons_ne_nil _ _) fun field hfield =>
    (fitsField_of_mem h field hfield).1

/-! ### Lines of records -/

theorem lineBreak_notMem_line (h : r.Printable) : '\n' ∉ r.line :=
  notMem_intercalate (by decide) fun field hfield => (fitsField_of_mem h field hfield).2

theorem exists_line_eq_append (r : TextRecord) : ∃ rest front,
    r.line = r.row ++ '\t' :: rest ∧ r.line = front ++ '\t' :: r.holding.print := by
  refine ⟨_, r.row ++ ['\t'] ++ r.family ++ ['\t'] ++ r.datatype ++ ['\t'] ++ r.holding.date ++
    ['\t'] ++ r.visibility ++ ['\t'] ++ (toString r.timestamp.toNat).toList, rfl, ?_⟩
  simp [line, fields, Fields.toList, List.intercalate_cons_cons]

/-- A printed line ends in a digit, a tab or a comma, so trimming takes nothing from it. -/
theorem trimReturns_line (r : TextRecord) : trimReturns r.line = r.line := by
  obtain ⟨_, front, _, hline⟩ := r.exists_line_eq_append
  have hlast : ∀ c ∈ r.line.getLast?, c ≠ '\r' := by
    intro c hc
    rw [hline, List.getLast?_append_cons, List.getLast?_cons] at hc
    cases hprint : r.holding.print.getLast? with
    | none =>
      rw [hprint] at hc
      obtain rfl : '\t' = c := Option.some.inj hc
      decide
    | some last =>
      rw [hprint] at hc
      obtain rfl : last = c := Option.some.inj hc
      exact Holding.ne_return_of_mem_getLast? last hprint
  change r.line.rdropWhile (fun c => c == '\r') = r.line
  rw [List.rdropWhile_eq_self_iff]
  intro hne
  simpa using hlast _ (List.getLast?_eq_some_getLast hne)

theorem head?_line (h : r.Printable) : r.line.head? ≠ some '#' := by
  obtain ⟨rest, _, hline, _⟩ := r.exists_line_eq_append
  rw [hline, List.head?_append]
  cases hrow : r.row.head? with
  | none => exact ne_of_beq_false rfl
  | some c =>
    rw [Option.some_or, ← hrow]
    exact h.row

/-- The digits of the timestamp are left when a printed line is trimmed. -/
theorem trimBlank_line_ne_nil (h : r.Printable) : trimBlank r.line ≠ [] := by
  have htimestamp : Nat.toDigits 10 r.timestamp.toNat ∈ pieces '\t' r.line := by
    rw [pieces_line h, ← toList_toString]
    simp [Fields.toList, fields]
  have hdigits : Nat.toDigits 10 r.timestamp.toNat ≠ [] := Nat.toDigits_ne_nil
  obtain ⟨digit, hdigit⟩ := List.exists_mem_of_ne_nil _ hdigits
  apply trimBlank_ne_nil ((of_mem_pieces htimestamp).2 digit hdigit)
  exact not_isBlank_of_isDigit (isDigit_of_mem_toDigits hdigit)

theorem not_holdsNoRecord_line (h : r.Printable) : ¬ holdsNoRecord r.line := by
  rw [holdsNoRecord, Bool.or_eq_true, List.isEmpty_iff, beq_iff_eq]
  exact not_or.2 ⟨trimBlank_line_ne_nil h, head?_line h⟩

theorem recordLine?_line (h : r.Printable) : recordLine? (Utf8.encode r.line) = some r.line := by
  rw [recordLine?, Utf8.decode_encode]
  simp only [trimReturns_line, if_neg (not_holdsNoRecord_line h)]

end TextRecord

/-! ### Dumps of records -/

theorem lines_flatMap {ls : List Bytes} (h : ∀ line ∈ ls, 0x0A ∉ line) :
    lines (ls.flatMap fun line => line ++ [0x0A]) = ls := by
  have hpieces : pieces (0x0A : UInt8) (ls.flatMap fun line => line ++ [0x0A]) = ls ++ [[]] := by
    induction ls with
    | nil => rfl
    | cons line rest ih =>
      obtain ⟨hline, hrest⟩ := List.forall_mem_cons.1 h
      rw [List.flatMap_cons, List.append_assoc, List.singleton_append, pieces_append,
        pieces_of_notMem hline, ih hrest]
      rfl
  -- The last line break leaves an empty piece behind it, which is no line.
  rw [lines, hpieces]
  simp

theorem lines_intercalate {ls : List Bytes} (h : ∀ line ∈ ls, 0x0A ∉ line)
    (hne : ∀ line ∈ ls, line ≠ []) : lines ([0x0A].intercalate ls) = ls := by
  by_cases hls : ls = []
  · rw [hls]
    rfl
  · have hlast : ls.getLast? ≠ some [] := fun hnil => hne [] (List.mem_of_mem_getLast? hnil) rfl
    rw [lines, pieces_intercalate_of_notMem hls h]
    exact if_neg hlast

/-- The forms of printed records are read as the records. -/
theorem readLines_lines {rs : List TextRecord} (h : ∀ r ∈ rs, r.Printable) (file : String)
    (lineNumber : Nat) : readLines file lineNumber (rs.map fun r => Utf8.encode r.line) =
      .ok (rs.map TextRecord.toRecord) := by
  apply readLines_of_forall₂
  · intro line hline
    obtain ⟨r, _, rfl⟩ := List.mem_map.1 hline
    exact ⟨r.line, Utf8.decode_encode _⟩
  · have hlines : (rs.map fun r => Utf8.encode r.line).filterMap recordLine? =
        rs.map TextRecord.line := by
      rw [List.filterMap_map, ← List.filterMap_eq_map]
      exact List.filterMap_congr fun r hr => TextRecord.recordLine?_line (h r hr)
    rw [hlines, List.forall₂_map_left_iff, List.forall₂_map_right_iff, List.forall₂_same]
    exact fun r hr => ⟨r.fields, TextRecord.pieces_line (h r hr), TextRecord.fields_gives (h r hr)⟩

/-- The lines of printed records are read as the same records in the same order, with a line break at the end
of each line or between the lines only. -/
theorem read_printed {rs : List TextRecord} (h : ∀ r ∈ rs, r.Printable) (file : String) :
    read file (Utf8.encode (rs.flatMap fun r => r.line ++ ['\n'])) =
      .ok (rs.map TextRecord.toRecord) ∧
    read file (Utf8.encode (['\n'].intercalate (rs.map TextRecord.line))) =
      .ok (rs.map TextRecord.toRecord) := by
  have hbreak : ∀ line ∈ rs.map fun r => Utf8.encode r.line, 0x0A ∉ line := by
    intro line hline
    obtain ⟨r, hr, rfl⟩ := List.mem_map.1 hline
    exact mt Utf8.lineBreak_mem_encode.1 (TextRecord.lineBreak_notMem_line (h r hr))
  have hne : ∀ line ∈ rs.map fun r => Utf8.encode r.line, line ≠ [] := by
    intro line hline
    obtain ⟨r, hr, rfl⟩ := List.mem_map.1 hline
    obtain ⟨rest, _, hrow, _⟩ := r.exists_line_eq_append
    exact Utf8.encode_ne_nil (by simp [hrow])
  have hended : Utf8.encode (rs.flatMap fun r => r.line ++ ['\n']) =
      (rs.map fun r => Utf8.encode r.line).flatMap fun line => line ++ [0x0A] := by
    rw [Utf8.encode, List.flatMap_assoc, List.flatMap_map]
    exact List.flatMap_congr fun r _ => Utf8.encode_append r.line ['\n']
  have hbetween : Utf8.encode (['\n'].intercalate (rs.map TextRecord.line)) =
      [0x0A].intercalate (rs.map fun r => Utf8.encode r.line) := by
    rw [Utf8.encode_intercalate, List.map_map]
    rfl
  constructor
  · rw [read, hended, lines_flatMap hbreak, readLines_lines h]
  · rw [read, hbetween, lines_intercalate hbreak hne, readLines_lines h]

/-- Records of both forms, with the greatest count, an empty map and empty parts of a key. -/
def notes : List TextRecord :=
  [⟨['r'], ['f'], ['ä', 'b'], ['x'], 7,
      .counts (.ofList [(.ofString "20200101", .ofNat (2 ^ 64 - 1)), (.ofString "", 0)])⟩,
    ⟨[], [], [], [], 0, .counts ∅⟩,
    ⟨['r'], ['f'], ['a'], [], .ofNat (2 ^ 64 - 1), .count [' ', '2'] 9⟩]

theorem read_printed_notes :
    (notes.map fun r => String.ofList r.line) = ["r\tf\täb\t\tx\t7\t:0,20200101:18446744073709551615",
      "\t\t\t\t\t0\t", "r\tf\ta\t 2\t\t18446744073709551615\t9"] ∧
    (∀ r ∈ notes, r.Printable) ∧
    read "in.txt" (Utf8.encode (notes.flatMap fun r => r.line ++ ['\n'])) =
      .ok (notes.map TextRecord.toRecord) ∧
    read "in.txt" (Utf8.encode (['\n'].intercalate (notes.map TextRecord.line))) =
      .ok (notes.map TextRecord.toRecord) := by
  have hprintable : ∀ r ∈ notes, r.Printable := by decide
  exact ⟨by decide, hprintable, read_printed hprintable "in.txt"⟩

end Dump

end DatedCounts
