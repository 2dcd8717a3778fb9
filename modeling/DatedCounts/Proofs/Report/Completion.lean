import DatedCounts.Proofs.Cursor.Ascent
import DatedCounts.Proofs.Cursor.Sifting
import DatedCounts.Proofs.Dump.Forms
import DatedCounts.Report

/-!
# Reports that complete

A report is printed in full or not at all. It fails in what goes before the first line, or it has one line
for each record of the scan, in order, and then the statistics: each value that the rollup wrote is read
back, since what it sums up was held by the dump.
-/

namespace DatedCounts

namespace Report

variable {read : Settings.Reader} {files : Files} {directories : List String} {command : Command}

/-! ### What is scanned -/

theorem layers_eq_ok {settings : Settings} {layers : List Layer}
    (h : Report.layers settings = .ok layers) : ∃ combiner, layers = [.rollup combiner] ∨
      ∃ config filter, Filter.ofConfig config = .ok filter ∧
        layers = [.rollup combiner, .sieve filter config.maxNext] := by
  rw [Report.layers] at h
  refine ⟨if settings.combines then some Label.conjoin else none, ?_⟩
  split at h
  · exact .inl (Except.ok.inj h).symm
  · next config _ =>
    obtain ⟨filter, hfilter, h⟩ := bind_eq_ok.1 h
    exact .inr ⟨config, filter, hfilter, (Except.ok.inj h).symm⟩

/-- Over the layers of a command, the records that are read are no more than those of the data, and their
values decode if what the data holds fits into memory. -/
theorem opens_layers {settings : Settings} {layers : List Layer}
    (hlayers : Report.layers settings = .ok layers) (data : OrderedMap Key Bytes) (range : Range) :
    ∃ out fault,
      Cursor.Opens (Cursor.seek range .everything (Stack.ofData data layers)) out fault ∧
      out.length ≤ data.size ∧
      ((data.toList.map Record.breadth).sum < 2 ^ 64 →
        ∀ sums ∈ out, ∃ m, DateMap.decode sums.2 = .ok m) := by
  have hread : ∀ (combiner : Option Combiner) {records : List Record} (fault : Option Error),
      records.Sublist data.toList →
      (Rollup.reading combiner records fault).1.length ≤ data.size ∧
        ((data.toList.map Record.breadth).sum < 2 ^ 64 →
          ∀ sums ∈ (Rollup.reading combiner records fault).1, ∃ m, DateMap.decode sums.2 = .ok m) := by
    intro combiner records fault hrecords
    have hle := (hrecords.map Record.breadth).sum_le_sum fun _ _ => Nat.zero_le _
    exact ⟨Nat.le_trans (Rollup.length_reading_le combiner records fault) hrecords.length_le,
      fun hfits sums hsums =>
        Rollup.exists_decode_of_mem_reading (Nat.lt_of_le_of_lt hle hfits) hsums⟩
  obtain ⟨combiner, rfl | ⟨config, filter, hfilter, rfl⟩⟩ := layers_eq_ok hlayers
  · have hdata : (Rollup.ofSource combiner (Store.ofData data)).source.data = data := rfl
    exact ⟨_, _, Rollup.opens_seek_store hdata range .everything,
      hread combiner none List.filter_sublist⟩
  · have hnul := Filter.separator_notMem_of_mem hfilter
    have hover : (Sieve.ofSource filter config.maxNext (Store.ofData data)).source.data = data ∧
        filter = filter ∧ config.maxNext = config.maxNext := ⟨rfl, rfl, rfl⟩
    have hopens := Sieve.opens_seek hnul hover range.widened .everything
    have hsublist := (Sieve.reading_sublist filter config.maxNext 0
      (Store.within data range.widened .everything)).trans List.filter_sublist
    exact ⟨_, _, Rollup.opens_seek (s := Rollup.ofSource combiner
      (Sieve.ofSource filter config.maxNext (Store.ofData data))) hopens hsublist.length_le,
      hread combiner _ hsublist⟩

theorem size_ofData (data : OrderedMap Key Bytes) (layers : List Layer) :
    Cursor.size (Stack.ofData data layers) = data.size := by
  induction layers with
  | nil => rfl
  | cons layer below ih => cases layer <;> exact ih

/-- A bounded scan that ends without an error has read all there is, and what it read decodes if what the
data holds fits into memory. -/
theorem opens_of_collect {settings : Settings} {layers : List Layer}
    (hlayers : Report.layers settings = .ok layers) {data : OrderedMap Key Bytes} {range : Range}
    {last : Stack layers} {scanned : List Record}
    (hscan : Cursor.collect range (Stack.ofData data layers) = (last, .ok scanned)) :
    Cursor.Opens (Cursor.seek range .everything (Stack.ofData data layers)) scanned none ∧
      ((data.toList.map Record.breadth).sum < 2 ^ 64 →
        ∀ sums ∈ scanned, ∃ m, DateMap.decode sums.2 = .ok m) := by
  obtain ⟨out, fault, hopens, hlength, hdecodes⟩ := opens_layers hlayers data range
  have hcollect := Cursor.collect_eq hopens (by rwa [size_ofData])
  rw [hscan] at hcollect
  cases fault with
  | some e => cases hcollect
  | none =>
    cases hcollect
    exact ⟨hopens, hdecodes⟩

def range (command : Command) : Range :=
  command.row.elim .all fun row => .ofRow (Utf8.encode row.toList)

/-- What a command scans: the layers over the records of its dump, the state at the end of the scan and the
records that were read, which are all that the layers let through. -/
inductive Scan (read : Settings.Reader) (files : Files) (directories : List String)
    (command : Command) : (layers : List Layer) → Stack layers → List Record → Prop
  | intro {settings : Settings} {content : Bytes} {loaded scanned : List Record} {layers : List Layer}
      {last : Stack layers} (hsettings : Report.settings read files directories command = .ok settings)
      (hcontent : files command.input = some content)
      (hread : Dump.read command.input content = .ok loaded)
      (hlayers : Report.layers settings = .ok layers)
      (hopens : Cursor.Opens
        (Cursor.seek (range command) .everything (Stack.ofData (.ofList loaded) layers)) scanned none)
      (hscan : Cursor.collect (range command) (Stack.ofData (.ofList loaded) layers) =
        (last, .ok scanned)) :
      Scan read files directories command layers last scanned

/-! ### What is printed -/

theorem recordLines_eq {records : List Record}
    (h : ∀ sums ∈ records, ∃ m, DateMap.decode sums.2 = .ok m) :
    ∃ maps, List.Forall₂ (fun sums m => DateMap.decode sums.2 = .ok m) records maps ∧
      recordLines records =
        ⟨List.zipWith (fun sums m => recordLine sums.1 m) records maps, none⟩ := by
  induction records with
  | nil => exact ⟨[], .nil, rfl⟩
  | cons sums rest ih =>
    obtain ⟨⟨m, hm⟩, hrest⟩ := List.forall_mem_cons.1 h
    obtain ⟨maps, hmaps, hlines⟩ := ih hrest
    refine ⟨m :: maps, .cons hm hmaps, ?_⟩
    rw [recordLines, hm]
    simp only [hlines, List.zipWith_cons_cons]

theorem ofStack_eq {layers : List Layer} {data : OrderedMap Key Bytes} {range : Range}
    {last : Stack layers} {scanned : List Record}
    (hscan : Cursor.collect range (Stack.ofData data layers) = (last, .ok scanned))
    (hdecodes : ∀ sums ∈ scanned, ∃ m, DateMap.decode sums.2 = .ok m) (stats : Bool) :
    ∃ maps, List.Forall₂ (fun sums m => DateMap.decode sums.2 = .ok m) scanned maps ∧
      ofStack layers data range stats =
        ⟨List.zipWith (fun sums m => recordLine sums.1 m) scanned maps ++
          if stats then (Stack.stats layers last).filterMap statsLine else [], none⟩ := by
  obtain ⟨maps, hmaps, hlines⟩ := recordLines_eq hdecodes
  refine ⟨maps, hmaps, ?_⟩
  rw [ofStack, hscan]
  simp only [hlines, Option.isNone_none, Bool.and_true]

def prepared (read : Settings.Reader) (files : Files) (directories : List String)
    (command : Command) : Except Error (OrderedMap Key Bytes × List Layer) := do
  let settings ← Report.settings read files directories command
  let records ← Dump.read command.input (← contentOf files command.input)
  .ok (.ofList records, ← Report.layers settings)

theorem ofCommand_eq (read : Settings.Reader) (files : Files) (directories : List String)
    (command : Command) :
    ofCommand read files directories command =
      match prepared read files directories command with
      | .error e => failure e
      | .ok (data, layers) =>
        ofStack layers data (range command) command.stats :=
  rfl

theorem prepared_eq_ok {data : OrderedMap Key Bytes} {layers : List Layer} :
    prepared read files directories command = .ok (data, layers) ↔
      ∃ settings content loaded, Report.settings read files directories command = .ok settings ∧
        files command.input = some content ∧ Dump.read command.input content = .ok loaded ∧
        Report.layers settings = .ok layers ∧ .ofList loaded = data := by
  constructor
  · intro h
    obtain ⟨settings, hsettings, h⟩ := bind_eq_ok.1 h
    obtain ⟨content, hcontent, h⟩ := bind_eq_ok.1 h
    obtain ⟨loaded, hread, h⟩ := bind_eq_ok.1 h
    obtain ⟨below, hlayers, h⟩ := bind_eq_ok.1 h
    cases h
    rw [contentOf] at hcontent
    split at hcontent
    · next bytes hfile =>
      cases hcontent
      exact ⟨settings, content, loaded, hsettings, hfile, hread, hlayers, rfl⟩
    · cases hcontent
  · rintro ⟨settings, content, loaded, hsettings, hfile, hread, hlayers, rfl⟩
    rw [prepared, hsettings, contentOf, hfile]
    simp only [bind, Except.bind, hread, hlayers]

/-- A command that scans its records reports on them in full. -/
theorem Scan.exists_ofCommand_eq {layers : List Layer} {last : Stack layers} {scanned : List Record}
    (h : Scan read files directories command layers last scanned)
    (hsize : ∀ content ∈ files command.input, content.length < 2 ^ 64) :
    ∃ maps, List.Forall₂ (fun sums m => DateMap.decode sums.2 = .ok m) scanned maps ∧
      ofCommand read files directories command =
        ⟨List.zipWith (fun sums m => recordLine sums.1 m) scanned maps ++
          if command.stats then (Stack.stats layers last).filterMap statsLine else [], none⟩ := by
  obtain @⟨settings, content, loaded, scanned, layers, last, hsettings, hcontent, hread, hlayers,
    _, hscan⟩ := h
  have hloaded := hsize content hcontent
  have hfits : (((OrderedMap.ofList loaded).toList.map Record.breadth).sum < 2 ^ 64) :=
    Nat.lt_of_le_of_lt (Nat.le_trans (OrderedMap.sum_toList_ofList_le Record.breadth loaded)
      (Dump.sum_breadth_le hread hloaded)) hloaded
  have hprepared := prepared_eq_ok.2 ⟨settings, content, loaded, hsettings, hcontent, hread, hlayers, rfl⟩
  obtain ⟨maps, hmaps, hreport⟩ :=
    ofStack_eq hscan ((opens_of_collect hlayers hscan).2 hfits) command.stats
  refine ⟨maps, hmaps, ?_⟩
  rw [ofCommand_eq, hprepared]
  exact hreport

/-- A command that does not come to scan its records fails without a line. -/
theorem exists_ofCommand_eq_failure
    (h : ∀ layers last scanned, ¬ Scan read files directories command layers last scanned) :
    ∃ e, ofCommand read files directories command = failure e := by
  rw [ofCommand_eq]
  cases hprepared : prepared read files directories command with
  | error e => exact ⟨e, rfl⟩
  | ok found =>
    obtain ⟨data, layers⟩ := found
    obtain ⟨settings, content, loaded, hsettings, hcontent, hread, hlayers, rfl⟩ :=
      prepared_eq_ok.1 hprepared
    simp only [ofStack]
    cases hscan : Cursor.collect (range command) (Stack.ofData (.ofList loaded) layers) with
    | mk last outcome =>
      cases outcome with
      | error e => exact ⟨e, rfl⟩
      | ok scanned =>
        have hopens := (opens_of_collect hlayers hscan).1
        exact absurd (.intro hsettings hcontent hread hlayers hopens hscan) (h layers last scanned)

/-- A command that ends with an error prints no line. It ends with none just if it scans its records, and
then it prints a line for each of them, in order, and after them the statistics if they are asked for. Each
value that was scanned decodes. -/
theorem run_all_or_nothing (read : Settings.Reader) (files : Files) (directories : List String)
    (command : Command) (hsize : ∀ content ∈ files command.input, content.length < 2 ^ 64) :
    (∀ e, (ofCommand read files directories command).error = some e →
      (ofCommand read files directories command).lines = []) ∧
    ((ofCommand read files directories command).error = none ↔
      ∃ layers last scanned, Scan read files directories command layers last scanned) ∧
    ∀ layers last scanned, Scan read files directories command layers last scanned →
      ∃ maps, List.Forall₂ (fun sums m => DateMap.decode sums.2 = .ok m) scanned maps ∧
        (ofCommand read files directories command).lines =
          List.zipWith (fun sums m => recordLine sums.1 m) scanned maps ++
            if command.stats then (Stack.stats layers last).filterMap statsLine else [] := by
  have hscans := fun layers last scanned (h : Scan read files directories command layers last scanned) =>
    h.exists_ofCommand_eq hsize
  by_cases hnone : ∀ layers last scanned, ¬ Scan read files directories command layers last scanned
  · obtain ⟨e, hrun⟩ := exists_ofCommand_eq_failure hnone
    rw [hrun]
    refine ⟨fun _ _ => rfl, ⟨fun h => ?_, fun ⟨layers, last, scanned, h⟩ => ?_⟩,
      fun layers last scanned h => ?_⟩
    · cases h
    · exact absurd h (hnone layers last scanned)
    · exact absurd h (hnone layers last scanned)
  · push Not at hnone
    obtain ⟨layers, last, scanned, hscan⟩ := hnone
    obtain ⟨_, _, hrun⟩ := hscans layers last scanned hscan
    refine ⟨fun e he => ?_, ⟨fun _ => ⟨layers, last, scanned, hscan⟩, fun _ => ?_⟩,
      fun others last scanned h => ?_⟩
    · rw [hrun] at he
      cases he
    · rw [hrun]
    · obtain ⟨maps, hmaps, hother⟩ := hscans others last scanned h
      exact ⟨maps, hmaps, congrArg Report.lines hother⟩

/-- Files with a dump of two records that are summed up and one of another row. -/
def notes : Files := fun file =>
  if file = "in.txt" then
    some (Utf8.encode "r\tf\ta\t\t\t1\t20200101:5\nr\tf\ta\t20200101\t\t2\t2\ns\tf\ta\t20200615\t\t3\t9\n".toList)
  else none

def ofFirstRow : Command := ⟨"in.txt", none, some "r", false, true, []⟩

theorem run_all_or_nothing_notes :
    (∀ content ∈ notes ofFirstRow.input, content.length < 2 ^ 64) ∧
    run notes [] ofFirstRow =
      ⟨["r\tf\ta\t\t2\t20200101:7",
        "Stats \x7b n_groups: 1, n_input: 2, n_raw: 1, n_aggregated: 1, n_output: 1 \x7d"], none⟩ ∧
    (∀ e, (run notes [] ofFirstRow).error = some e → (run notes [] ofFirstRow).lines = []) ∧
    ((run notes [] ofFirstRow).error = none ↔
      ∃ layers last scanned, Scan Settings.toml notes [] ofFirstRow layers last scanned) ∧
    ∀ layers last scanned, Scan Settings.toml notes [] ofFirstRow layers last scanned →
      ∃ maps, List.Forall₂ (fun sums m => DateMap.decode sums.2 = .ok m) scanned maps ∧
        (run notes [] ofFirstRow).lines =
          List.zipWith (fun sums m => recordLine sums.1 m) scanned maps ++
            if ofFirstRow.stats then (Stack.stats layers last).filterMap statsLine else [] := by
  have hsize : ∀ content ∈ notes ofFirstRow.input, content.length < 2 ^ 64 := by
    decide +kernel
  exact ⟨hsize, by decide +kernel, run_all_or_nothing Settings.toml notes [] ofFirstRow hsize⟩

end Report

end DatedCounts
