import DatedCounts.Proofs.Cursor.Sums
import DatedCounts.Proofs.Cursor.Written
import DatedCounts.Proofs.Dump.Lines

/-!
# Forms of loaded records

The loader encodes a value by whether the line has a date. A reader of the record decodes the value by the
first NUL of the qualifier. The two agree unless the datatype of the line has a NUL in it: then the key is
in raw form whether or not there is a date, and a value that lists counts is not the single count that the
key calls for.
-/

namespace DatedCounts

/-! ### Maps of listed counts -/

namespace DateMap

theorem mem_keys_ofList {entries : List (Text × Count)} {date : Text} :
    date ∈ (ofList entries).entries.keys ↔ date ∈ entries.map (·.1) := by
  have hget := get?_foldl_add entries ∅ date
  rw [get?_empty, Option.merge_none_left] at hget
  rw [OrderedMap.mem_keys_iff, show (ofList entries).entries.get? date = _ from hget,
    Count.isSome_total?]
  simp only [ne_eq, List.filterMap_eq_nil_iff, List.mem_map]
  grind

theorem atMost_ofList {entries : List (Text × Count)} {bound : Nat} (hlength : entries.length ≤ bound)
    (hdates : ∀ entry ∈ entries, entry.1.bytes.length ≤ bound) : (ofList entries).AtMost bound := by
  constructor
  · have hnodup : (ofList entries).entries.keys.Nodup :=
      Ascending.nodup_keys (ofList entries).entries.ascending
    have hle := hnodup.length_le_of_subset fun _ hdate => mem_keys_ofList.1 hdate
    rw [List.length_map, OrderedMap.keys, List.length_map] at hle
    exact Nat.le_trans hle hlength
  · intro entry hentry
    obtain ⟨other, hother, hsame⟩ :=
      List.mem_map.1 (mem_keys_ofList.1 (OrderedMap.mem_keys.2 ⟨entry.2, hentry⟩))
    rw [← hsame]
    exact hdates other hother

theorem toList_ofList_eq_nil {entries : List (Text × Count)} :
    (ofList entries).toList = [] ↔ entries = [] := by
  constructor
  · intro h
    cases entries with
    | nil => rfl
    | cons entry rest =>
      have hkey : entry.1 ∈ (ofList (entry :: rest)).entries.keys :=
        mem_keys_ofList.2 (List.mem_map_of_mem List.mem_cons_self)
      obtain ⟨count, hcount⟩ := OrderedMap.mem_keys.1 hkey
      rw [show (ofList (entry :: rest)).entries.toList = [] from h] at hcount
      cases hcount
  · rintro rfl
    rfl

/-- The encoding of a map is that of a count just if the map is empty. -/
theorem exists_count_iff {m : DateMap} (h : m.size < 2 ^ 64) :
    (∃ count, Count.decode m.encode = .ok count) ↔ m.toList = [] := by
  rw [Count.decode, encode, Varint.decode_encode h]
  constructor
  · rintro ⟨count, hcount⟩
    obtain ⟨_, hsize, hcount⟩ := bind_eq_ok.1 hcount
    cases hsize
    simp only at hcount
    split at hcount
    · next hempty =>
      cases hlist : m.toList with
      | nil => rfl
      | cons entry rest =>
        have hne : Varint.encode entry.1.bytes.length ≠ [] := Varint.encode_ne_nil _
        simp [hlist, encodeEntry, hne] at hempty
    · cases hcount
  · intro hnil
    rw [hnil]
    exact ⟨_, rfl⟩

end DateMap

theorem Count.decode_self (count : Count) : decode (encode count) = .ok count := by
  have hread := decode_encode count []
  rw [List.append_nil] at hread
  rw [decode, hread]
  rfl

namespace Dump

variable {fields : Fields} {record : Record} {line : List Char}

/-! ### Sizes of listed counts -/

theorem size_listItems (cs : List Char) :
    ((Options.listItems cs).map fun item => (Utf8.encode item).length).sum ≤
      (Utf8.encode cs).length := by
  have hpieces : ((pieces ',' cs).map fun piece => (Utf8.encode piece).length).sum ≤
      (Utf8.encode cs).length := by
    have hcomma : (Utf8.encodeChar ',').length = 1 := rfl
    have hne := List.length_pos_iff.2 (pieces_ne_nil ',' cs)
    have hsum := sum_pieces ',' (fun c => (Utf8.encodeChar c).length) cs
    simp only [hcomma, ← Utf8.length_encode] at hsum
    omega
  have htrimmed : (((pieces ',' cs).map trimBlank).map fun piece => (Utf8.encode piece).length).sum ≤
      ((pieces ',' cs).map fun piece => (Utf8.encode piece).length).sum := by
    rw [List.map_map]
    exact List.sum_le_sum fun piece _ => Utf8.length_encode_le_of_sublist (trimBlank_sublist piece)
  have hitems := ((List.filter_sublist (p := fun item => !item.isEmpty)
    (l := (pieces ',' cs).map trimBlank)).map fun item => (Utf8.encode item).length).sum_le_sum
      fun _ _ => Nat.zero_le _
  exact Nat.le_trans hitems (Nat.le_trans htrimmed hpieces)

theorem atMost_ofList_entries {items : List (List Char)} {entries : List (Text × Count)}
    (h : List.Forall₂ IsEntry items entries) :
    (DateMap.ofList entries).AtMost (items.map fun item => (Utf8.encode item).length).sum := by
  suffices hentries : entries.length ≤ (items.map fun item => (Utf8.encode item).length).sum ∧
      ∀ entry ∈ entries, entry.1.bytes.length ≤
        (items.map fun item => (Utf8.encode item).length).sum from
    DateMap.atMost_ofList hentries.1 hentries.2
  induction h with
  | nil => simp
  | @cons item entry items entries hentry _ ih =>
    obtain ⟨date, count, rfl, _, hdate, _⟩ := hentry
    have hitem : entry.1.bytes.length + 1 ≤ (Utf8.encode (date ++ ':' :: count)).length := by
      have hcolon : (Utf8.encode (':' :: count)).length = 1 + (Utf8.encode count).length := by
        rw [Utf8.length_encode, Utf8.length_encode]
        rfl
      rw [Utf8.encode_append, List.length_append, hcolon, hdate]
      change (Utf8.encode date).length + 1 ≤ _
      omega
    obtain ⟨hlength, hdates⟩ := ih
    rw [List.map_cons, List.sum_cons, List.length_cons]
    refine ⟨by omega, fun other hother => ?_⟩
    rcases List.mem_cons.1 hother with rfl | hother
    · omega
    · exact Nat.le_trans (hdates other hother) (Nat.le_add_left _ _)

namespace Fields

/-! ### The forms of a record -/

def name (fields : Fields) : List Char :=
  if fields.date = [] then fields.datatype else fields.datatype ++ '\x00' :: fields.date

/-- Whether the fields list counts under a datatype that has a NUL in it. -/
def IsTorn (fields : Fields) : Prop :=
  fields.date = [] ∧ '\x00' ∈ fields.datatype ∧ Options.listItems fields.value ≠ []

theorem toBytes_qualifier (fields : Fields) : fields.qualifier.toBytes = Utf8.encode fields.name := by
  rw [qualifier, name]
  split
  · rfl
  · rw [Utf8.encode_append, Utf8.encode_nul_cons]
    rfl

theorem Gives.parts_eq (h : fields.Gives record) : record.1.parts =
    match cutAt? '\x00' fields.name with
    | some (datatype, date) => .raw (Utf8.encode datatype) (Utf8.encode date)
    | none => .aggregated (Utf8.encode fields.name) :=
  (congrArg Qualifier.ofBytes (h.qualifier.trans fields.toBytes_qualifier)).trans
    (Qualifier.ofBytes_encode _)

theorem Gives.parts_of_notMem (h : fields.Gives record) (hnul : '\x00' ∉ fields.datatype) :
    record.1.parts = fields.qualifier := by
  rw [h.parts_eq]
  by_cases hdate : fields.date = []
  · simp only [name, Fields.qualifier, hdate, ↓reduceIte, cutAt?_eq_none.2 hnul]
  · simp only [name, Fields.qualifier, hdate, ↓reduceIte, cutAt?_append hnul]

/-- With a NUL in the datatype the key is in raw form, date or not, and the datatype ends there. -/
theorem Gives.parts_of_append (h : fields.Gives record) {before after : List Char}
    (hdatatype : fields.datatype = before ++ '\x00' :: after) (hnul : '\x00' ∉ before) :
    record.1.parts = .raw (Utf8.encode before)
      (Utf8.encode (if fields.date = [] then after else after ++ '\x00' :: fields.date)) := by
  have hname : fields.name = before ++ '\x00' ::
      if fields.date = [] then after else after ++ '\x00' :: fields.date := by
    rw [name, hdatatype]
    split <;> simp
  rw [h.parts_eq, hname]
  simp only [cutAt?_append hnul]

theorem cutAt?_name_isSome_iff (fields : Fields) : (cutAt? '\x00' fields.name).isSome ↔
    fields.date ≠ [] ∨ '\x00' ∈ fields.datatype := by
  have hcut : (cutAt? '\x00' fields.name).isSome ↔ '\x00' ∈ fields.name := by
    rw [Option.isSome_iff_ne_none, ne_eq, cutAt?_eq_none, not_not]
  rw [hcut, name]
  split <;> simp [*]

theorem size_name_le (fields : Fields) : (Utf8.encode fields.name).length ≤
    (Utf8.encode fields.datatype).length + (Utf8.encode fields.date).length + 1 := by
  rw [name]
  split
  · omega
  · rw [Utf8.encode_append, Utf8.encode_nul_cons, List.length_append, List.length_cons]
    omega

theorem Gives.exists_map (h : fields.Gives record) (hline : pieces '\t' line = fields.toList)
    (hdate : fields.date = []) : ∃ m : DateMap, record.2 = m.encode ∧
      m.AtMost (Utf8.encode line).length ∧
      (m.toList = [] ↔ Options.listItems fields.value = []) := by
  obtain ⟨entries, hentries, hvalue⟩ := h.counts hdate
  refine ⟨_, hvalue, (atMost_ofList_entries hentries).mono ?_, ?_⟩
  · have hitems := size_listItems fields.value
    have hsize := size_fields hline
    simp only [toList, List.map_cons, List.sum_cons] at hsize
    omega
  · rw [DateMap.toList_ofList_eq_nil, ← List.length_eq_zero_iff, ← List.length_eq_zero_iff,
      hentries.length_eq]

/-- A record decodes unless its line lists counts under a datatype that has a NUL in it. -/
theorem Gives.decodes_iff (h : fields.Gives record) (hline : pieces '\t' line = fields.toList)
    (hsize : (Utf8.encode line).length < 2 ^ 64) : record.Decodes ↔ ¬ fields.IsTorn := by
  have hparts := h.parts_eq
  have hcut := cutAt?_name_isSome_iff fields
  -- A reader goes by whether the name has a NUL in it, which a date puts there or the datatype brings.
  rw [Record.Decodes, IsTorn]
  cases hname : cutAt? '\x00' fields.name with
  | some parts =>
    obtain ⟨datatype, date⟩ := parts
    rw [hname] at hparts hcut
    simp only [hparts]
    have htext : ∃ text, Text.ofBytes (Utf8.encode date) = .ok text :=
      ⟨_, Text.ofBytes_bytes (.ofChars date)⟩
    rw [and_iff_right htext]
    by_cases hdate : fields.date = []
    · obtain ⟨m, hvalue, hbound, hempty⟩ := h.exists_map hline hdate
      have hnul : '\x00' ∈ fields.datatype := by simpa [hdate] using hcut
      rw [hvalue, DateMap.exists_count_iff (hbound.fits hsize).size, hempty]
      simp [hdate, hnul]
    · obtain ⟨count, _, hvalue⟩ := h.count hdate
      rw [hvalue, Count.decode_self]
      simp [hdate]
  | none =>
    rw [hname] at hparts hcut
    simp only [hparts]
    obtain ⟨hdate, hnul⟩ : fields.date = [] ∧ '\x00' ∉ fields.datatype := by simpa using hcut
    obtain ⟨m, hvalue, hbound, _⟩ := h.exists_map hline hdate
    rw [hvalue, DateMap.decode_encode (hbound.fits hsize)]
    simp [hnul]

theorem Gives.atMost_held (h : fields.Gives record) (hline : pieces '\t' line = fields.toList)
    (hsize : (Utf8.encode line).length < 2 ^ 64) : record.held.AtMost (Utf8.encode line).length := by
  have hparts := h.parts_eq
  cases hname : cutAt? '\x00' fields.name with
  | some parts =>
    obtain ⟨datatype, date⟩ := parts
    rw [hname] at hparts
    refine (Record.atMost_held_raw hparts).mono ?_
    have hlength := fields.size_name_le
    have hfields := size_fields hline
    rw [(eq_append_of_cutAt? hname).1, Utf8.encode_append, Utf8.encode_nul_cons, List.length_append,
      List.length_cons] at hlength
    simp only [toList, List.map_cons, List.sum_cons] at hfields
    omega
  | none =>
    rw [hname] at hparts
    have hcut := cutAt?_name_isSome_iff fields
    rw [hname] at hcut
    obtain ⟨hdate, _⟩ : fields.date = [] ∧ '\x00' ∉ fields.datatype := by simpa using hcut
    obtain ⟨m, hvalue, hbound, _⟩ := h.exists_map hline hdate
    have hcounts : record.counts = .ok m :=
      (Record.counts_aggregated_eq_ok hparts).2 (hvalue ▸ DateMap.decode_encode (hbound.fits hsize))
    rw [Record.held_of_counts hcounts]
    exact hbound

end Fields

/-! ### Loaded records -/

section Loaded

variable {file : String} {content : Bytes} {records : List Record}

theorem size_line_lt (hsize : content.length < 2 ^ 64) {line : List Char}
    (h : line ∈ recordLines content) : (Utf8.encode line).length < 2 ^ 64 :=
  Nat.lt_of_le_of_lt (Nat.le_trans
    (List.le_sum_of_mem (List.mem_map_of_mem (f := fun line => (Utf8.encode line).length) h))
    (size_recordLines content)) hsize

theorem sum_breadth_le (h : read file content = .ok records) (hsize : content.length < 2 ^ 64) :
    (records.map Record.breadth).sum ≤ content.length := by
  have hlines := (List.forall₂_and_left _ _).2 ⟨fun _ => id, read_forall₂ h⟩
  have hbounds : List.Forall₂ (fun line record => record.breadth ≤ (Utf8.encode line).length)
      (recordLines content) records :=
    hlines.imp fun line record ⟨hmem, fields, hline, hgives⟩ =>
      DateMap.atMost_iff.1 (hgives.atMost_held hline (size_line_lt hsize hmem))
  refine Nat.le_trans (List.Forall₂.sum_le_sum ?_) (size_recordLines content)
  rw [List.forall₂_map_left_iff, List.forall₂_map_right_iff]
  exact hbounds.flip

theorem opens_rollup (h : ∀ record ∈ records, record.Decodes) (range : Range) (projection : Projection) :
    ∃ out, Cursor.Opens (Cursor.seek range projection
      (Rollup.ofSource none (Store.ofData (.ofList records)))) out none := by
  have hdecodes : ∀ record ∈ Store.within (.ofList records) range.widened projection,
      record.Decodes := fun record hrecord =>
    h record (OrderedMap.toList_ofList_subset records (Store.mem_within.1 hrecord).1)
  obtain ⟨out, hread, _⟩ := Rollup.reading_eq none (Store.within_ascending _ _ _) hdecodes
    fun record _ => ⟨_, rfl⟩
  have hdata : (Rollup.ofSource none (Store.ofData (.ofList records))).source.data = .ofList records :=
    rfl
  have hopens := Rollup.opens_seek_store hdata range projection
  simp only [show (Rollup.ofSource none (Store.ofData (.ofList records))).combiner = none from rfl,
    hread] at hopens
  exact ⟨out, hopens⟩

/-- A loaded record is what its line says. Its key has the form that the line calls for unless the datatype
has a NUL in it, and then it is in raw form. It decodes unless, besides, the line lists counts. So a rollup
by labels of a dump without such lines never fails. -/
theorem read_forms (h : read file content = .ok records) (hsize : content.length < 2 ^ 64) :
    List.Forall₂ (fun line record => ∃ fields : Fields, pieces '\t' line = fields.toList ∧
      fields.Gives record ∧
      ('\x00' ∉ fields.datatype → record.1.parts = fields.qualifier) ∧
      (∀ before after, fields.datatype = before ++ '\x00' :: after → '\x00' ∉ before →
        record.1.parts = .raw (Utf8.encode before)
          (Utf8.encode (if fields.date = [] then after else after ++ '\x00' :: fields.date))) ∧
      (record.Decodes ↔ ¬ fields.IsTorn)) (recordLines content) records ∧
    ((∀ line ∈ recordLines content, ∀ fields : Fields, pieces '\t' line = fields.toList →
      ¬ fields.IsTorn) → ∀ range projection, ∃ out, Cursor.Opens (Cursor.seek range projection
        (Rollup.ofSource none (Store.ofData (.ofList records)))) out none) := by
  have hlines := (List.forall₂_and_left _ _).2 ⟨fun _ => id, read_forall₂ h⟩
  constructor
  · refine hlines.imp fun line record ⟨hmem, fields, hline, hgives⟩ => ?_
    exact ⟨fields, hline, hgives, hgives.parts_of_notMem, fun _ _ => hgives.parts_of_append,
      hgives.decodes_iff hline (size_line_lt hsize hmem)⟩
  · intro huntorn range projection
    have hdecodes : List.Forall₂ (fun _ record => record.Decodes) (recordLines content) records :=
      hlines.imp fun line record ⟨hmem, fields, hline, hgives⟩ =>
        (hgives.decodes_iff hline (size_line_lt hsize hmem)).2 (huntorn line hmem fields hline)
    exact opens_rollup (forall_of_forall₂ hdecodes) range projection

end Loaded

def listing : Bytes :=
  Utf8.encode "# notes\nr\tf\ta\t\t\t1\t20200101:5, 20200102:7\nr\tf\ta\t20200615\tx\t2\t9\n".toList

theorem read_forms_listing : ∃ records, read "in.txt" listing = .ok records ∧
    listing.length < 2 ^ 64 ∧
    List.Forall₂ (fun line record => ∃ fields : Fields, pieces '\t' line = fields.toList ∧
      fields.Gives record ∧
      ('\x00' ∉ fields.datatype → record.1.parts = fields.qualifier) ∧
      (∀ before after, fields.datatype = before ++ '\x00' :: after → '\x00' ∉ before →
        record.1.parts = .raw (Utf8.encode before)
          (Utf8.encode (if fields.date = [] then after else after ++ '\x00' :: fields.date))) ∧
      (record.Decodes ↔ ¬ fields.IsTorn)) (recordLines listing) records ∧
    ((∀ line ∈ recordLines listing, ∀ fields : Fields, pieces '\t' line = fields.toList →
      ¬ fields.IsTorn) → ∀ range projection, ∃ out, Cursor.Opens (Cursor.seek range projection
        (Rollup.ofSource none (Store.ofData (.ofList records)))) out none) := by
  have hread : ∃ records, read "in.txt" listing = .ok records := ⟨_, rfl⟩
  obtain ⟨records, hrecords⟩ := hread
  have hsize : listing.length < 2 ^ 64 := by decide
  exact ⟨records, hrecords, hsize, read_forms hrecords hsize⟩

/-- A dump with a line that lists counts under a datatype with a NUL in it. -/
def torn : Bytes := Utf8.encode "r\tf\ta\x00b\t\t\t1\t20200101:5\n".toList

def tornRecord : Record :=
  (⟨[114], [102], [97, 0, 98], [], 1⟩, [1, 8, 50, 48, 50, 48, 48, 49, 48, 49, 5])

/-- Although the line has no date, the key is in raw form. Its value does not decode, and a rollup fails. -/
theorem torn_not_decodes : read "in.txt" torn = .ok [tornRecord] ∧
    tornRecord.1.parts = .raw [97] [98] ∧ ¬ tornRecord.Decodes ∧
    (Cursor.collect .all (Rollup.ofSource none (Store.ofData (.ofList [tornRecord])))).2 =
      .error (.encoding (.bytesAfterCount 10)) := by
  have hcounts : tornRecord.counts = .error (.encoding (.bytesAfterCount 10)) := by decide
  refine ⟨by cbv, by decide, ?_, by rfl⟩
  rw [Record.decodes_iff, hcounts]
  rintro ⟨m, hm⟩
  cases hm

end Dump

end DatedCounts
