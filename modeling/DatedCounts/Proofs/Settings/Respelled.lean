import DatedCounts.Proofs.Filter.Window
import DatedCounts.Proofs.Text.Encoded
import DatedCounts.Proofs.Text.Numeral
import DatedCounts.Settings

/-!
# Settings written as options

The settings of a filter can be written as options and read back. A datatype with a comma in it then falls
apart, one with nothing but white space in it is dropped, and white space at the ends of a datatype or a
date is lost. So just the plain settings come back as they were. The count comes back in any case, and valid
settings come back valid, with the same dates.
-/

namespace DatedCounts

def Options.datatypesOf (s : String) : OrderedSet Bytes :=
  .ofList ((listItems s.toList).map Utf8.encode)

namespace Filter.Config

/-! ### Options over settings -/

/-- Whether some settings are those that options give, and the ones of `kept` that they do not name. -/
structure IsOverride (options : Options) (kept config : Config) : Prop where
  datatypes : config.datatypes =
    (options.lookup "datatypes").elim kept.datatypes Options.datatypesOf
  first : config.first = ((options.lookup "start.date").map Options.trimmed).or kept.first
  last : config.last = ((options.lookup "end.date").map Options.trimmed).or kept.last
  maxNext : (options.lookup "max.next.count").elim (.ok kept.maxNext) Options.readMaxNext =
    .ok config.maxNext

def checked (config : Config) : Except Error Config := config.window.map fun _ => config

theorem eq_of_checked {config other : Config} (h : config.checked = .ok other) : config = other := by
  rw [checked] at h
  cases hwindow : config.window with
  | error e =>
    rw [hwindow] at h
    cases h
  | ok dates =>
    rw [hwindow] at h
    exact Except.ok.inj h

/-- Settings with options in place of those that they name, if they are valid. -/
def overridden (options : Options) (kept : Config) : Except Error Config := do
  let maxNext ← (options.lookup "max.next.count").elim (.ok kept.maxNext) Options.readMaxNext
  checked {
    datatypes := (options.lookup "datatypes").elim kept.datatypes Options.datatypesOf
    first := ((options.lookup "start.date").map Options.trimmed).or kept.first
    last := ((options.lookup "end.date").map Options.trimmed).or kept.last
    maxNext }

theorem isOverride_of_overridden {options : Options} {kept config : Config}
    (h : overridden options kept = .ok config) : IsOverride options kept config := by
  rw [overridden] at h
  cases hmaxNext : (options.lookup "max.next.count").elim (.ok kept.maxNext)
      Options.readMaxNext with
  | error e =>
    rw [hmaxNext] at h
    cases h
  | ok maxNext =>
    rw [hmaxNext] at h
    obtain rfl := eq_of_checked h
    exact ⟨rfl, rfl, rfl, hmaxNext⟩

theorem overridden_nil (kept : Config) : kept.overridden [] = kept.checked := rfl

theorem ofOptions_eq (options : Options) : ofOptions options = overridden options default := by
  have hdatatypes : OrderedSet.ofList
      (((options.lookup "datatypes").elim [] fun s => Options.listItems s.toList).map Utf8.encode) =
        (options.lookup "datatypes").elim ∅ Options.datatypesOf := by
    cases options.lookup "datatypes" <;> rfl
  rw [ofOptions, hdatatypes, overridden]
  simp only [default, Option.or_none]
  rfl

/-! ### Settings read back -/

/-- The settings that are read back from those written as options. -/
def respelled (config : Config) : Config where
  datatypes := .ofList (config.datatypes.toList.flatMap fun datatype =>
    (Options.listItems (Utf8.lossy datatype).toList).map Utf8.encode)
  first := config.first.map Options.trimmed
  last := config.last.map Options.trimmed
  maxNext := config.maxNext

end Filter.Config

namespace Settings

variable (config : Filter.Config)

theorem lookup_datatypes : (optionsOf config).lookup "datatypes" =
    some (",".intercalate (config.datatypes.toList.map Utf8.lossy)) := by
  simp [optionsOf]

theorem lookup_first : (optionsOf config).lookup "start.date" = config.first := by
  obtain ⟨datatypes, first, last, maxNext⟩ := config
  cases first <;> cases last <;> rfl

theorem lookup_last : (optionsOf config).lookup "end.date" = config.last := by
  obtain ⟨datatypes, first, last, maxNext⟩ := config
  cases first <;> cases last <;> rfl

theorem lookup_maxNext : (optionsOf config).lookup "max.next.count" =
    some (toString config.maxNext) := by
  obtain ⟨datatypes, first, last, maxNext⟩ := config
  cases first <;> cases last <;> rfl

theorem datatypesOf_intercalate (datatypes : List Bytes) :
    Options.datatypesOf (",".intercalate (datatypes.map Utf8.lossy)) =
      .ofList (datatypes.flatMap fun datatype =>
        (Options.listItems (Utf8.lossy datatype).toList).map Utf8.encode) := by
  have hcomma : ",".toList = [','] := rfl
  rw [Options.datatypesOf, String.toList_intercalate, hcomma, Options.listItems_intercalate,
    List.map_map, List.flatMap_map, List.map_flatMap]
  rfl

theorem ofOptions_over (h : config.maxNext < UInt64.size) (options : Options) :
    Filter.Config.ofOptions (options ++ optionsOf config) = config.respelled.overridden options := by
  rw [Filter.Config.ofOptions_eq]
  have hdatatypes : ((options ++ optionsOf config).lookup "datatypes").elim
      (default : Filter.Config).datatypes Options.datatypesOf =
        (options.lookup "datatypes").elim config.respelled.datatypes Options.datatypesOf := by
    rw [List.lookup_append, lookup_datatypes]
    cases options.lookup "datatypes" with
    | none => exact datatypesOf_intercalate config.datatypes.toList
    | some s => rfl
  have hmaxNext : ((options ++ optionsOf config).lookup "max.next.count").elim
      (.ok (default : Filter.Config).maxNext) Options.readMaxNext =
        (options.lookup "max.next.count").elim (.ok config.respelled.maxNext)
          Options.readMaxNext := by
    rw [List.lookup_append, lookup_maxNext]
    cases options.lookup "max.next.count" with
    | none => exact Options.readMaxNext_toString h
    | some s => rfl
  have hdate : ∀ name (date : Option String), (optionsOf config).lookup name = date →
      (((options ++ optionsOf config).lookup name).map Options.trimmed).or none =
        ((options.lookup name).map Options.trimmed).or (date.map Options.trimmed) := by
    rintro name date rfl
    rw [List.lookup_append, Option.or_none, Option.map_or]
  have hfirst := hdate _ _ (lookup_first config)
  have hlast := hdate _ _ (lookup_last config)
  simp only [Filter.Config.overridden, hdatatypes, hmaxNext]
  simp only [default, hfirst, hlast]
  rfl

end Settings

/-! ### Plain settings -/

theorem Date.isBare_of_parse {s : String} {date : Date} (h : parse s = .ok date) :
    IsBare s.toList := by
  obtain ⟨_, _, _, _, _, _, _, _, hten, hchars, _⟩ := exists_digits_of_parse h
  refine isBare_of_forall fun c hc => not_isBlank_of_isDigit ?_
  rw [← hchars] at hc
  obtain ⟨d, hd, rfl⟩ := List.mem_map.1 hc
  rw [Nat.isDigit_digitChar]
  exact decide_eq_true (hten d hd)

namespace Filter.Config

/-- Whether settings can be written as options. -/
structure IsPlain (config : Config) : Prop where
  datatypes : ∀ datatype ∈ config.datatypes.toList, ∃ cs, Options.IsItem cs ∧ Utf8.encode cs = datatype
  first : ∀ s ∈ config.first, IsBare s.toList
  last : ∀ s ∈ config.last, IsBare s.toList

private theorem map_trimmed_eq_self_iff {date : Option String} :
    date.map Options.trimmed = date ↔ ∀ s ∈ date, IsBare s.toList := by
  cases date with
  | none => simp
  | some s => simp [Options.trimmed_eq_self_iff]

private theorem items_of_isItem {cs : List Char} (h : Options.IsItem cs) :
    (Options.listItems (Utf8.lossy (Utf8.encode cs)).toList).map Utf8.encode = [Utf8.encode cs] := by
  rw [Utf8.lossy_encode, String.toList_ofList, Options.listItems_of_isItem h, List.map_singleton]

theorem respelled_eq_self_iff {config : Config} : config.respelled = config ↔ config.IsPlain := by
  constructor
  · intro h
    refine ⟨fun datatype hmem => ?_, ?_, ?_⟩
    · rw [← h, respelled, OrderedSet.mem_ofList, List.mem_flatMap] at hmem
      obtain ⟨_, _, hmem⟩ := hmem
      obtain ⟨item, hitem, rfl⟩ := List.mem_map.1 hmem
      exact ⟨item, Options.isItem_of_mem_listItems hitem, rfl⟩
    · exact map_trimmed_eq_self_iff.1 (congrArg Config.first h)
    · exact map_trimmed_eq_self_iff.1 (congrArg Config.last h)
  · rintro ⟨hdatatypes, hfirst, hlast⟩
    have hitems : config.datatypes.toList.flatMap (fun datatype =>
        (Options.listItems (Utf8.lossy datatype).toList).map Utf8.encode) =
          config.datatypes.toList := by
      refine (List.flatMap_congr fun datatype hmem => ?_).trans (List.flatMap_singleton' _)
      obtain ⟨cs, hcs, rfl⟩ := hdatatypes datatype hmem
      exact items_of_isItem hcs
    have hset : config.respelled.datatypes = config.datatypes := by
      refine OrderedSet.ext_mem fun datatype => ?_
      rw [respelled, hitems, OrderedSet.mem_ofList]
    obtain ⟨datatypes, first, last, maxNext⟩ := config
    simp only [respelled, Config.mk.injEq, and_true]
    exact ⟨hset, map_trimmed_eq_self_iff.2 hfirst, map_trimmed_eq_self_iff.2 hlast⟩

private theorem isBare_of_dateAt {which : WindowEnd} {s : Option String} {date : Date}
    (h : dateAt which s = .ok date) : ∀ text ∈ s, IsBare text.toList := by
  rintro text rfl
  exact Date.isBare_of_parse (mapError_eq_ok.1 h)

/-- Valid settings that come from texts are read back as valid ones. -/
theorem window_respelled {config : Config} {dates : Date × Date}
    (htexts : ∀ datatype ∈ config.datatypes.toList, ∃ cs, Utf8.encode cs = datatype)
    (h : config.window = .ok dates) : config.respelled.window = .ok dates := by
  obtain ⟨first, last⟩ := dates
  obtain ⟨hfirst, hlast, horder, hdatatypes⟩ := window_eq_ok.1 h
  have hfirstSame : config.respelled.first = config.first :=
    map_trimmed_eq_self_iff.2 (isBare_of_dateAt hfirst)
  have hlastSame : config.respelled.last = config.last :=
    map_trimmed_eq_self_iff.2 (isBare_of_dateAt hlast)
  rw [window_eq_ok, hfirstSame, hlastSame]
  refine ⟨hfirst, hlast, horder, fun datatype hmem => ?_⟩
  rw [respelled, OrderedSet.mem_ofList, List.mem_flatMap] at hmem
  obtain ⟨written, hwritten, hmem⟩ := hmem
  obtain ⟨item, hitem, rfl⟩ := List.mem_map.1 hmem
  obtain ⟨cs, rfl⟩ := htexts written hwritten
  rw [Utf8.lossy_encode, String.toList_ofList] at hitem
  have hne : Utf8.encode item ≠ [] := Utf8.encode_ne_nil (Options.isItem_of_mem_listItems hitem).ne_nil
  have hzero : 0 ∉ Utf8.encode item := fun hmem =>
    separator_notMem (hdatatypes _ hwritten) (Utf8.zero_mem_encode.2
      (Options.subset_of_mem_listItems hitem (Utf8.zero_mem_encode.1 hmem)))
  simpa [isDatatype] using ⟨hne, hzero⟩

end Filter.Config

end DatedCounts
