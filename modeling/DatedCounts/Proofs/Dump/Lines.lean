import DatedCounts.Dump
import DatedCounts.Proofs.Fallible
import DatedCounts.Proofs.Text.Encoded
import DatedCounts.Proofs.Text.Items

/-!
# Lines of a dump

A dump that is read gives one record for each line that holds one, and the record is what the seven fields
of the line say. Lines of text with such fields are read. A line has at least as many bytes as its fields
together, and a dump as its lines.
-/

namespace DatedCounts

namespace Dump

/-! ### Fields -/

structure Fields where
  row : List Char
  family : List Char
  datatype : List Char
  date : List Char
  visibility : List Char
  timestamp : List Char
  value : List Char

namespace Fields

def toList (fields : Fields) : List (List Char) :=
  [fields.row, fields.family, fields.datatype, fields.date, fields.visibility, fields.timestamp,
    fields.value]

def qualifier (fields : Fields) : Qualifier :=
  if fields.date = [] then .aggregated (Utf8.encode fields.datatype)
  else .raw (Utf8.encode fields.datatype) (Utf8.encode fields.date)

end Fields

def IsEntry (item : List Char) (entry : Text × Count) : Prop :=
  ∃ date count, item = date ++ ':' :: count ∧ ':' ∉ date ∧ entry.1 = .ofChars date ∧
    Numeral.parse count = .ok entry.2

/-- Whether a record is what the fields of a line say. -/
structure Fields.Gives (fields : Fields) (record : Record) : Prop where
  row : record.1.row = Utf8.encode fields.row
  family : record.1.family = Utf8.encode fields.family
  qualifier : record.1.qualifier = fields.qualifier.toBytes
  visibility : record.1.visibility = Utf8.encode fields.visibility
  timestamp : Numeral.parse (trimBlank fields.timestamp) = .ok record.1.timestamp
  counts : fields.date = [] → ∃ entries,
    List.Forall₂ IsEntry (Options.listItems fields.value) entries ∧
      record.2 = (DateMap.ofList entries).encode
  count : fields.date ≠ [] → ∃ count,
    Numeral.parse (trimBlank fields.value) = .ok count ∧ record.2 = Count.encode count

theorem isEntry_of_readEntry {lineNumber : Nat} {item : List Char} {entry : Text × Count}
    (h : readEntry lineNumber item = .ok entry) : IsEntry item entry := by
  rw [readEntry] at h
  split at h
  · next date count hcut =>
    obtain ⟨rfl, hdate⟩ := eq_append_of_cutAt? hcut
    obtain ⟨number, hnumber, rfl⟩ := map_eq_ok.1 h
    exact ⟨date, count, rfl, hdate, rfl, mapError_eq_ok.1 hnumber⟩
  · cases h

theorem entries_of_readMap {lineNumber : Nat} {field : List Char} {m : DateMap}
    (h : readMap lineNumber field = .ok m) :
    ∃ entries, List.Forall₂ IsEntry (Options.listItems field) entries ∧ m = .ofList entries := by
  obtain ⟨entries, hentries, rfl⟩ := map_eq_ok.1 h
  exact ⟨entries, (forall₂_of_mapM hentries).imp fun _ _ => isEntry_of_readEntry, rfl⟩

theorem readEntry_of_isEntry {item : List Char} {entry : Text × Count} (h : IsEntry item entry)
    (lineNumber : Nat) : readEntry lineNumber item = .ok entry := by
  obtain ⟨date, count, rfl, hdate, htext, hcount⟩ := h
  rw [readEntry, cutAt?_append hdate]
  exact map_eq_ok.2 ⟨entry.2, mapError_eq_ok.2 hcount, Prod.ext htext.symm rfl⟩

theorem readMap_of_entries {field : List Char} {entries : List (Text × Count)}
    (h : List.Forall₂ IsEntry (Options.listItems field) entries) (lineNumber : Nat) :
    readMap lineNumber field = .ok (.ofList entries) :=
  map_eq_ok.2 ⟨entries, mapM_of_forall₂ (h.imp fun _ _ hentry =>
    readEntry_of_isEntry hentry lineNumber), rfl⟩

theorem exists_fields {lineNumber : Nat} {line : List Char} {record : Record}
    (h : readLine lineNumber line = .ok record) :
    ∃ fields : Fields, pieces '\t' line = fields.toList ∧ fields.Gives record := by
  rw [readLine] at h
  split at h
  · next row family datatype date visibility timestamp value hpieces =>
    refine ⟨⟨row, family, datatype, date, visibility, timestamp, value⟩, hpieces, ?_⟩
    obtain ⟨moment, hmoment, h⟩ := bind_eq_ok.1 h
    have htimestamp := mapError_eq_ok.1 hmoment
    cases date with
    | nil =>
      obtain ⟨m, hm, h⟩ := bind_eq_ok.1 h
      cases h
      obtain ⟨entries, hentries, rfl⟩ := entries_of_readMap hm
      exact ⟨rfl, rfl, rfl, rfl, htimestamp, fun _ => ⟨entries, hentries, rfl⟩, fun hne => absurd rfl hne⟩
    | cons c rest =>
      obtain ⟨count, hcount, h⟩ := bind_eq_ok.1 h
      cases h
      exact ⟨rfl, rfl, rfl, rfl, htimestamp, fun hnil => (List.cons_ne_nil _ _ hnil).elim,
        fun _ => ⟨count, mapError_eq_ok.1 hcount, rfl⟩⟩
  · cases h

theorem readLine_of_gives {line : List Char} {fields : Fields} {record : Record}
    (hline : pieces '\t' line = fields.toList) (h : fields.Gives record) (lineNumber : Nat) :
    readLine lineNumber line = .ok record := by
  obtain ⟨row, family, datatype, date, visibility, timestamp, value⟩ := fields
  have hkey := Key.ext (y := ⟨_, _, _, _, _⟩) h.row h.family h.qualifier h.visibility rfl
  rw [readLine, hline]
  refine bind_eq_ok.2 ⟨record.1.timestamp, mapError_eq_ok.2 h.timestamp, ?_⟩
  cases date with
  | nil =>
    obtain ⟨entries, hentries, hvalue⟩ := h.counts rfl
    have hread := readMap_of_entries hentries lineNumber
    exact bind_eq_ok.2 ⟨_, hread, congrArg Except.ok (Prod.ext hkey hvalue).symm⟩
  | cons c rest =>
    obtain ⟨count, hcount, hvalue⟩ := h.count (List.cons_ne_nil c rest)
    exact bind_eq_ok.2 ⟨count, mapError_eq_ok.2 hcount, congrArg Except.ok (Prod.ext hkey hvalue).symm⟩

/-! ### Lines that hold a record -/

def recordLine? (line : Bytes) : Option (List Char) :=
  match Utf8.decode line with
  | .error _ => none
  | .ok text => if holdsNoRecord (trimReturns text) then none else some (trimReturns text)

def recordLines (content : Bytes) : List (List Char) := (lines content).filterMap recordLine?

theorem readLines_forall₂ {file : String} {lineNumber : Nat} {lines : List Bytes}
    {records : List Record} (h : readLines file lineNumber lines = .ok records) :
    List.Forall₂ (fun line record => ∃ fields : Fields,
      pieces '\t' line = fields.toList ∧ fields.Gives record) (lines.filterMap recordLine?) records := by
  induction lines generalizing lineNumber records with
  | nil =>
    cases h
    exact .nil
  | cons line rest ih =>
    rw [readLines] at h
    rw [List.filterMap_cons, recordLine?]
    cases hdecode : Utf8.decode line with
    | error fault =>
      rw [hdecode] at h
      cases h
    | ok text =>
      simp only [hdecode] at h ⊢
      by_cases hnone : holdsNoRecord (trimReturns text)
      · rw [if_pos hnone] at h
        simpa only [hnone, ↓reduceIte] using ih h
      · rw [if_neg hnone] at h
        obtain ⟨record, hrecord, h⟩ := bind_eq_ok.1 h
        obtain ⟨others, hothers, h⟩ := bind_eq_ok.1 h
        cases h
        simp only [hnone, Bool.false_eq_true, ↓reduceIte]
        exact .cons (exists_fields hrecord) (ih hothers)

theorem readLines_of_forall₂ {file : String} {lineNumber : Nat} {lines : List Bytes}
    {records : List Record} (htext : ∀ line ∈ lines, ∃ text, Utf8.decode line = .ok text)
    (h : List.Forall₂ (fun line record => ∃ fields : Fields,
      pieces '\t' line = fields.toList ∧ fields.Gives record) (lines.filterMap recordLine?) records) :
    readLines file lineNumber lines = .ok records := by
  induction lines generalizing lineNumber records with
  | nil =>
    cases h
    rfl
  | cons line rest ih =>
    obtain ⟨⟨text, hdecode⟩, hrest⟩ := List.forall_mem_cons.1 htext
    rw [List.filterMap_cons, recordLine?] at h
    rw [readLines]
    simp only [hdecode] at h ⊢
    by_cases hnone : holdsNoRecord (trimReturns text)
    · simp only [hnone, ↓reduceIte] at h ⊢
      exact ih hrest h
    · rw [if_neg hnone]
      simp only [hnone, Bool.false_eq_true, ↓reduceIte] at h
      obtain ⟨record, others, ⟨fields, hline, hgives⟩, hothers, rfl⟩ := List.forall₂_cons_left_iff.1 h
      exact bind_eq_ok.2 ⟨record, readLine_of_gives hline hgives lineNumber,
        bind_eq_ok.2 ⟨others, ih hrest hothers, rfl⟩⟩

/-- A dump that is read gives a record for each line that holds one. -/
theorem read_forall₂ {file : String} {content : Bytes} {records : List Record}
    (h : read file content = .ok records) :
    List.Forall₂ (fun line record => ∃ fields : Fields,
      pieces '\t' line = fields.toList ∧ fields.Gives record) (recordLines content) records :=
  readLines_forall₂ h

/-! ### Sizes -/

/-- The fields of a line have together fewer bytes than the line, by the tabs between them. -/
theorem size_fields {line : List Char} {fields : Fields} (h : pieces '\t' line = fields.toList) :
    (fields.toList.map fun field => (Utf8.encode field).length).sum + 6 =
      (Utf8.encode line).length := by
  have hsum : ((pieces '\t' line).map fun field => (Utf8.encode field).length).sum +
      (pieces '\t' line).length = (Utf8.encode line).length + 1 := by
    have htab : (Utf8.encodeChar '\t').length = 1 := rfl
    have hsum := sum_pieces '\t' (fun c => (Utf8.encodeChar c).length) line
    rw [htab, Nat.mul_one] at hsum
    simpa only [Utf8.length_encode] using hsum
  rw [h, show fields.toList.length = 7 from rfl] at hsum
  omega

theorem size_recordLine {line : Bytes} {text : List Char} (h : recordLine? line = some text) :
    (Utf8.encode text).length ≤ line.length := by
  rw [recordLine?] at h
  split at h
  · cases h
  · next read hdecode =>
    split at h
    · cases h
    · cases h
      rw [← Utf8.encode_of_decode hdecode]
      refine Utf8.length_encode_le_of_sublist ?_
      have hreversed := (List.dropWhile_suffix (l := read.reverse) fun c => c == '\r').sublist.reverse
      rwa [List.reverse_reverse] at hreversed

theorem size_recordLines (content : Bytes) :
    ((recordLines content).map fun line => (Utf8.encode line).length).sum ≤ content.length := by
  have hlines : ((lines content).map List.length).sum ≤ content.length := by
    have hsum : ((pieces (0x0A : UInt8) content).map List.length).sum +
        (pieces (0x0A : UInt8) content).length = content.length + 1 := by
      simpa using sum_pieces (0x0A : UInt8) (fun _ => 1) content
    have hne := List.length_pos_iff.2 (pieces_ne_nil (0x0A : UInt8) content)
    have hsublist : (lines content).Sublist (pieces (0x0A : UInt8) content) := by
      simp only [lines]
      split
      · exact List.dropLast_sublist _
      · exact List.Sublist.refl _
    have hle := (hsublist.map List.length).sum_le_sum fun _ _ => Nat.zero_le _
    omega
  refine Nat.le_trans ?_ hlines
  rw [recordLines]
  induction lines content with
  | nil => exact Nat.le_refl _
  | cons line rest ih =>
    rw [List.filterMap_cons, List.map_cons, List.sum_cons]
    cases hline : recordLine? line with
    | none => exact Nat.le_trans ih (Nat.le_add_left _ _)
    | some text =>
      rw [List.map_cons, List.sum_cons]
      exact Nat.add_le_add (size_recordLine hline) ih

end Dump

end DatedCounts
