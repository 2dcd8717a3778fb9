import DatedCounts.Proofs.Filter.Window
import DatedCounts.Proofs.Key.Boundary

/-!
# Hints

The hint of a rejection lies above the rejected key, and the filter accepts no key from the rejected one
up to the hint. There are four reasons for a rejection, each with its own kind of hint: the datatype is
not accepted and another one comes later, or none does, or the date is before the window or past it. With
the reasons a filter of valid settings is described in full: what it refuses, accepts and rejects.
-/

namespace DatedCounts

theorem Key.qualifier_eq {key : Key} {parts : Qualifier} (h : key.parts = parts) :
    key.qualifier = parts.toBytes ∧ Qualifier.separator ∉ parts.datatype := by
  subst h
  exact ⟨(Qualifier.toBytes_ofBytes _).symm, Qualifier.separator_notMem_datatype _⟩

theorem Key.compare_qualifier {key : Key} {datatype date : Bytes}
    (hparts : key.parts = .raw datatype date) {other : Bytes} (hother : Qualifier.separator ∉ other)
    (bound : Bytes) :
    compare key.qualifier (Qualifier.raw other bound).toBytes =
      (compare datatype other).then (compare date bound) := by
  obtain ⟨hkey, hdatatype⟩ := qualifier_eq hparts
  rw [hkey, Qualifier.compare_raw (by exact hdatatype) hother]

theorem Key.isRaw_parts_eq_false_iff {key : Key} :
    key.parts.isRaw = false ↔ Qualifier.separator ∉ key.qualifier := by
  rw [parts, Qualifier.ofBytes, ← cutAt?_eq_none]
  cases cutAt? Qualifier.separator key.qualifier <;> simp [Qualifier.isRaw]

namespace Filter

variable {filter : Filter} {key : Key} {datatype date : Bytes}

theorem check_raw (hparts : key.parts = .raw datatype date) :
    filter.check key = .ok (filter.decision key datatype date) := by
  rw [check, Qualifier.rawParts, show Qualifier.ofBytes key.qualifier = _ from hparts]
  rfl

theorem check_aggregated (hparts : key.parts = .aggregated datatype) :
    filter.check key = .error (.noSeparator key.qualifier) := by
  rw [check, Qualifier.rawParts, show Qualifier.ofBytes key.qualifier = _ from hparts]
  rfl

theorem accepts_iff : filter.accepts key ↔ ∃ datatype date, key.parts = .raw datatype date ∧
    filter.acceptsDatatype datatype ∧ (compare filter.first date).isLE ∧
      (compare date filter.last).isLE := by
  rw [accepts]
  cases key.parts with
  | aggregated => simp
  | raw datatype date => simp [and_assoc]

theorem acceptsDatatype_of_accepts (h : filter.accepts key) :
    filter.acceptsDatatype key.parts.datatype := by
  obtain ⟨datatype, date, hparts, hdatatype, _⟩ := accepts_iff.1 h
  rw [hparts]
  exact hdatatype

theorem acceptsDatatype_iff : filter.acceptsDatatype datatype ↔
    filter.datatypes.toList = [] ∨ datatype ∈ filter.datatypes.toList := by
  rw [acceptsDatatype, Bool.or_eq_true, OrderedSet.isEmpty_iff, OrderedSet.contains_iff]

theorem accepts_of_decision (hparts : key.parts = .raw datatype date)
    (h : filter.decision key datatype date = .accept) : filter.accepts key := by
  simp only [decision] at h
  split at h
  · split at h <;> cases h
  · next hdatatype =>
    split at h
    · cases h
    · next hfirst =>
      split at h
      · cases h
      · next hlast =>
        refine accepts_iff.2 ⟨datatype, date, hparts, by simpa using hdatatype, ?_, ?_⟩
        · exact Std.OrientedCmp.isLE_of_isGE (Ordering.ne_lt_iff_isGE.1 (by simpa using hfirst))
        · exact Ordering.ne_gt_iff_isLE.1 (by simpa using hlast)

/-- Whether a hint lies above a key and no key from that one up to the hint is accepted. -/
structure Skips (filter : Filter) (key hint : Key) : Prop where
  above : compare key hint = .lt
  rejects : ∀ other, (compare key other).isLE → compare other hint = .lt → ¬ filter.accepts other

/-! ### Kinds of hints -/

section Hints

variable (hparts : key.parts = .raw datatype date)
include hparts

theorem raw_isLE {other : Key} {found day : Bytes} (hother : other.parts = .raw found day)
    (hle : (compare key.qualifier other.qualifier).isLE) :
    compare datatype found = .lt ∨ datatype = found ∧ (compare date day).isLE := by
  obtain ⟨hfound, hnul⟩ := Key.qualifier_eq hother
  rw [hfound, Key.compare_qualifier hparts (by exact hnul), Ordering.isLE_then_iff_or,
    Std.compare_eq_iff_eq] at hle
  exact hle

theorem not_earlier {other : Key} {found day : Bytes} (hother : other.parts = .raw found day)
    (hle : (compare key.qualifier other.qualifier).isLE) : compare found datatype ≠ .lt := by
  intro hless
  rcases raw_isLE hparts hother hle with hlt | ⟨rfl, _⟩
  · exact Std.OrientedCmp.not_lt_of_lt hlt hless
  · exact ne_of_compare_lt hless rfl

theorem later_datatype (hdatatype : ¬ filter.acceptsDatatype datatype) {other : Key}
    {found day : Bytes} (hother : other.parts = .raw found day)
    (hle : (compare key.qualifier other.qualifier).isLE) (hfound : filter.acceptsDatatype found) :
    found ∈ filter.datatypes.toList ∧ compare datatype found = .lt := by
  rw [acceptsDatatype_iff, not_or] at hdatatype
  have hmem := (acceptsDatatype_iff.1 hfound).resolve_left hdatatype.1
  rcases raw_isLE hparts hother hle with hlt | ⟨rfl, _⟩
  · exact ⟨hmem, hlt⟩
  · exact absurd hmem hdatatype.2

theorem hint_datatype {next : Bytes} (hdatatype : ¬ filter.acceptsDatatype datatype)
    (hnext : filter.datatypes.next? datatype = some next) (hnul : Qualifier.separator ∉ next) :
    filter.Skips key (.firstOf key.row key.family (Qualifier.raw next filter.first).toBytes) := by
  obtain ⟨hmem, hlt, hleast⟩ := OrderedSet.next?_eq_some hnext
  constructor
  · rw [Key.lt_firstOf_iff, Key.compare_qualifier hparts hnul, hlt]
    simp
  · intro other hle hbelow haccepts
    obtain ⟨_, hqualifier, hbefore⟩ := Key.between_firstOf hle hbelow
    obtain ⟨found, day, hother, hfound, hfirst, _⟩ := accepts_iff.1 haccepts
    have habove := later_datatype hparts hdatatype hother hqualifier hfound
    rw [Key.compare_qualifier hother hnul, Ordering.then_eq_lt] at hbefore
    rcases hbefore with hless | ⟨_, hday⟩
    · exact Std.OrientedCmp.not_lt_of_isLE (hleast found habove.1 habove.2) hless
    · exact Std.OrientedCmp.not_lt_of_isLE hfirst hday

theorem hint_family (hdatatype : ¬ filter.acceptsDatatype datatype)
    (hnext : filter.datatypes.next? datatype = none) :
    filter.Skips key (.pastFamily key.row key.family) := by
  constructor
  · rw [Key.lt_pastFamily_iff]
    simp
  · intro other hle hbelow haccepts
    obtain ⟨_, hqualifier⟩ := Key.between_pastFamily hle hbelow
    obtain ⟨found, day, hother, hfound, _⟩ := accepts_iff.1 haccepts
    have habove := later_datatype hparts hdatatype hother hqualifier hfound
    exact OrderedSet.next?_eq_none hnext found habove.1 habove.2

theorem hint_first (hdate : compare date filter.first = .lt) :
    filter.Skips key (.firstOf key.row key.family (Qualifier.raw datatype filter.first).toBytes) := by
  have hnul : Qualifier.separator ∉ datatype := (Key.qualifier_eq hparts).2
  constructor
  · rw [Key.lt_firstOf_iff, Key.compare_qualifier hparts hnul, hdate]
    simp
  · intro other hle hbelow haccepts
    obtain ⟨_, hqualifier, hbefore⟩ := Key.between_firstOf hle hbelow
    obtain ⟨found, day, hother, _, hfirst, _⟩ := accepts_iff.1 haccepts
    rw [Key.compare_qualifier hother hnul, Ordering.then_eq_lt] at hbefore
    rcases hbefore with hless | ⟨_, hday⟩
    · exact not_earlier hparts hother hqualifier hless
    · exact Std.OrientedCmp.not_lt_of_isLE hfirst hday

omit hparts in
/-- The separator is not the greatest byte, so there is a bound on the qualifiers of a datatype. -/
theorem pastQualifiers_raw (row family datatype : Bytes) : ∃ past,
    Bytes.pastExtensions? (Qualifier.raw datatype []).toBytes = some past ∧
      Key.pastQualifiers row family (Qualifier.raw datatype []).toBytes = .firstOf row family past := by
  cases hpast : Bytes.pastExtensions? (Qualifier.raw datatype []).toBytes with
  | none =>
    have hsep := Bytes.eq_of_pastExtensions?_eq_none hpast Qualifier.separator (by simp [Qualifier.toBytes])
    exact absurd hsep (by decide)
  | some past => exact ⟨past, rfl, by rw [Key.pastQualifiers, hpast]⟩

theorem between_pastQualifiers {other : Key} {found day : Bytes} (hother : other.parts = .raw found day)
    (hle : (compare key other).isLE)
    (hlt : compare other (.pastQualifiers key.row key.family (Qualifier.raw datatype []).toBytes) =
      .lt) :
    (other.row = key.row ∧ other.family = key.family) ∧ found = datatype ∧ (compare date day).isLE := by
  have hnul : Qualifier.separator ∉ datatype := (Key.qualifier_eq hparts).2
  obtain ⟨past, hpast, hbound⟩ := pastQualifiers_raw key.row key.family datatype
  rw [hbound] at hlt
  obtain ⟨hsame, hqualifier, hbefore⟩ := Key.between_firstOf hle hlt
  refine ⟨hsame, ?_⟩
  rcases (Bytes.lt_pastExtensions_iff hpast _).1 hbefore with hless | ⟨rest, hrest⟩
  · rw [Key.compare_qualifier hother hnul, Ordering.then_eq_lt] at hless
    rcases hless with hless | ⟨_, hday⟩
    · exact absurd hless (not_earlier hparts hother hqualifier)
    · exact absurd hday (Bytes.compare_nil_ne_lt _)
  · have hraw : other.parts = .raw datatype rest := by
      have hbytes : other.qualifier = (Qualifier.raw datatype rest).toBytes := by
        rw [← hrest]
        simp [Qualifier.toBytes]
      rw [Key.parts, hbytes, Qualifier.ofBytes_raw hnul]
    obtain ⟨rfl, rfl⟩ := Qualifier.raw.inj (hraw.symm.trans hother)
    rcases raw_isLE hparts hother hqualifier with hless | ⟨_, hday⟩
    · exact absurd rfl (ne_of_compare_lt hless)
    · exact ⟨rfl, hday⟩

theorem hint_last (hdate : compare date filter.last = .gt) :
    filter.Skips key (.pastQualifiers key.row key.family (Qualifier.raw datatype []).toBytes) := by
  constructor
  · have hkey : key.qualifier = datatype ++ Qualifier.separator :: date := (Key.qualifier_eq hparts).1
    have hstart : (Qualifier.raw datatype []).toBytes <+: key.qualifier := by
      rw [hkey]
      exact ⟨date, by simp [Qualifier.toBytes]⟩
    obtain ⟨past, hpast, hbound⟩ := pastQualifiers_raw key.row key.family datatype
    rw [hbound, Key.lt_firstOf_iff, (Bytes.lt_pastExtensions_iff hpast _).2 (.inr hstart)]
    simp
  · intro other hle hbelow haccepts
    obtain ⟨found, day, hother, _, _, hlast⟩ := accepts_iff.1 haccepts
    obtain ⟨_, rfl, hday⟩ := between_pastQualifiers hparts hother hle hbelow
    have hle := Std.TransCmp.isLE_trans hday hlast
    rw [hdate] at hle
    cases hle

end Hints

/-- The reason for the rejection of a raw key, with the hint that it calls for. -/
inductive Rejects (filter : Filter) (key : Key) (datatype date : Bytes) : Key → Prop
  | datatype {next : Bytes} (hdatatype : ¬ filter.acceptsDatatype datatype)
      (hnext : filter.datatypes.next? datatype = some next) :
      Rejects filter key datatype date
        (.firstOf key.row key.family (Qualifier.raw next filter.first).toBytes)
  | family (hdatatype : ¬ filter.acceptsDatatype datatype)
      (hnext : filter.datatypes.next? datatype = none) :
      Rejects filter key datatype date (.pastFamily key.row key.family)
  | first (hdatatype : filter.acceptsDatatype datatype)
      (hdate : compare date filter.first = .lt) :
      Rejects filter key datatype date
        (.firstOf key.row key.family (Qualifier.raw datatype filter.first).toBytes)
  | last (hdatatype : filter.acceptsDatatype datatype)
      (hfirst : compare date filter.first ≠ .lt) (hdate : compare date filter.last = .gt) :
      Rejects filter key datatype date
        (.pastQualifiers key.row key.family (Qualifier.raw datatype []).toBytes)

theorem decision_eq_reject_iff {hint : Key} : filter.decision key datatype date = .reject hint ↔
    filter.Rejects key datatype date hint := by
  constructor
  · intro h
    simp only [decision] at h
    split at h
    · next hdatatype =>
      have hrefused : ¬ filter.acceptsDatatype datatype := by simpa using hdatatype
      split at h
      · next next hnext =>
        cases h
        exact .datatype hrefused hnext
      · next hnext =>
        cases h
        exact .family hrefused hnext
    · next hdatatype =>
      have haccepted : filter.acceptsDatatype datatype := by simpa using hdatatype
      split at h
      · next hfirst =>
        cases h
        exact .first haccepted (Ordering.isLT_iff_eq_lt.1 hfirst)
      · next hfirst =>
        split at h
        · next hlast =>
          cases h
          exact .last haccepted (by simpa using hfirst) (Ordering.isGT_iff_eq_gt.1 hlast)
        · cases h
  · intro h
    cases h with
    | datatype hdatatype hnext => simp [decision, hdatatype, hnext]
    | family hdatatype hnext => simp [decision, hdatatype, hnext]
    | first hdatatype hdate => simp [decision, hdatatype, hdate]
    | last hdatatype hfirst hdate => simp [decision, hdatatype, hfirst, hdate]

theorem check_eq_reject_iff {hint : Key} : filter.check key = .ok (.reject hint) ↔
    ∃ datatype date, key.parts = .raw datatype date ∧ filter.Rejects key datatype date hint := by
  cases hparts : key.parts with
  | aggregated => simp [check_aggregated hparts]
  | raw datatype date => simp [check_raw hparts, decision_eq_reject_iff]

/-- A rejection comes with a hint that skips no accepted key. -/
theorem skips_of_reject (hnul : ∀ accepted ∈ filter.datatypes.toList, Qualifier.separator ∉ accepted)
    {hint : Key} (h : filter.check key = .ok (.reject hint)) : filter.Skips key hint := by
  obtain ⟨datatype, date, hparts, hrejects⟩ := check_eq_reject_iff.1 h
  cases hrejects with
  | datatype hdatatype hnext =>
    exact hint_datatype hparts hdatatype hnext (hnul _ (OrderedSet.next?_eq_some hnext).1)
  | family hdatatype hnext => exact hint_family hparts hdatatype hnext
  | first _ hdate => exact hint_first hparts hdate
  | last _ _ hdate => exact hint_last hparts hdate

theorem accepts_of_accept (h : filter.check key = .ok .accept) : filter.accepts key := by
  cases hparts : key.parts with
  | aggregated =>
    rw [check_aggregated hparts] at h
    cases h
  | raw datatype date =>
    rw [check_raw hparts, Except.ok.injEq] at h
    exact accepts_of_decision hparts h

theorem check_eq_error_iff {e : Error} :
    filter.check key = .error e ↔ key.parts.isRaw = false ∧ e = .noSeparator key.qualifier := by
  cases hparts : key.parts with
  | aggregated => simp [check_aggregated hparts, Qualifier.isRaw, eq_comm]
  | raw datatype date => simp [check_raw hparts, Qualifier.isRaw]

theorem check_eq_accept_iff (hnul : ∀ accepted ∈ filter.datatypes.toList, Qualifier.separator ∉ accepted)
    {datatype date : Bytes} (hparts : key.parts = .raw datatype date) :
    filter.check key = .ok .accept ↔ filter.accepts key := by
  refine ⟨accepts_of_accept, fun haccepts => ?_⟩
  cases hdecision : filter.decision key datatype date with
  | accept => rw [check_raw hparts, hdecision]
  | reject hint =>
    have hskips := skips_of_reject hnul ((check_raw hparts).trans (congrArg Except.ok hdecision))
    exact absurd haccepts (hskips.rejects key Std.ReflCmp.isLE_rfl hskips.above)

theorem Config.accepts_iff {config : Config} (hparts : key.parts = .raw datatype date) :
    config.accepts key ↔ (config.datatypes.toList = [] ∨ datatype ∈ config.datatypes.toList) ∧
      (∃ first ∈ config.first, (compare (Utf8.encode first.toList) date).isLE) ∧
        ∃ last ∈ config.last, (compare date (Utf8.encode last.toList)).isLE := by
  rw [accepts, hparts, ← OrderedSet.isEmpty_iff, ← OrderedSet.contains_iff]
  cases config.first <;> cases config.last <;> simp [and_assoc]

/-- A filter refuses just the keys without a separator. It accepts a key with one when the settings have
its datatype and its date lies between their dates. Otherwise the hint lies above the key, and no key from
that one up to the hint is accepted. -/
theorem check_decides {config : Config} (h : ofConfig config = .ok filter) (key : Key) :
    (∀ e, filter.check key = .error e ↔
      Qualifier.separator ∉ key.qualifier ∧ e = .noSeparator key.qualifier) ∧
    (Error.noSeparator key.qualifier).kind = .malformedKey ∧
    (∀ datatype date, key.qualifier = datatype ++ Qualifier.separator :: date →
      Qualifier.separator ∉ datatype → ∃ decision, filter.check key = .ok decision ∧
        (decision = .accept ↔
          (config.datatypes.toList = [] ∨ datatype ∈ config.datatypes.toList) ∧
          (∃ first ∈ config.first, (compare (Utf8.encode first.toList) date).isLE) ∧
          ∃ last ∈ config.last, (compare date (Utf8.encode last.toList)).isLE)) ∧
    ∀ hint, filter.check key = .ok (.reject hint) → compare key hint = .lt ∧
      ∀ other, (compare key other).isLE → compare other hint = .lt →
        filter.check other ≠ .ok .accept := by
  have hnul := separator_notMem_of_mem h
  refine ⟨fun e => ?_, rfl, fun datatype date hkey hdatatype => ?_, fun hint hreject => ?_⟩
  · rw [check_eq_error_iff, Key.isRaw_parts_eq_false_iff]
  · have hparts : key.parts = .raw datatype date := by
      rw [Key.parts, hkey]
      exact Qualifier.ofBytes_raw hdatatype date
    refine ⟨_, check_raw hparts, ?_⟩
    rw [← Config.accepts_iff hparts, ← accepts_eq h, ← check_eq_accept_iff hnul hparts,
      check_raw hparts, Except.ok.injEq]
  · have hskips := skips_of_reject hnul hreject
    exact ⟨hskips.above, fun other hle hlt haccept =>
      hskips.rejects other hle hlt (accepts_of_accept haccept)⟩

/-- Settings for a datatype and a longer one that begins with it. -/
def nested : Config := ⟨.ofList [[97], [97, 98]], some "20200101", some "20201231", 0⟩

def amid : Key := ⟨[1], [2], 97 :: 97 :: 0 :: Utf8.encode "20200615".toList, [], 1⟩

theorem check_decides_nested : ∃ filter, ofConfig nested = .ok filter ∧
    filter.check amid = .ok (.reject
      ⟨[1], [2], 97 :: 98 :: 0 :: Utf8.encode "20200101".toList, [], Key.newestTimestamp⟩) ∧
    (∀ e, filter.check amid = .error e ↔
      Qualifier.separator ∉ amid.qualifier ∧ e = .noSeparator amid.qualifier) ∧
    (Error.noSeparator amid.qualifier).kind = .malformedKey ∧
    (∀ datatype date, amid.qualifier = datatype ++ Qualifier.separator :: date →
      Qualifier.separator ∉ datatype → ∃ decision, filter.check amid = .ok decision ∧
        (decision = .accept ↔
          (nested.datatypes.toList = [] ∨ datatype ∈ nested.datatypes.toList) ∧
          (∃ first ∈ nested.first, (compare (Utf8.encode first.toList) date).isLE) ∧
          ∃ last ∈ nested.last, (compare date (Utf8.encode last.toList)).isLE)) ∧
    ∀ hint, filter.check amid = .ok (.reject hint) → compare amid hint = .lt ∧
      ∀ other, (compare amid other).isLE → compare other hint = .lt →
        filter.check other ≠ .ok .accept := by
  have hvalid : ∃ filter, ofConfig nested = .ok filter ∧ filter.check amid = .ok (.reject
      ⟨[1], [2], 97 :: 98 :: 0 :: Utf8.encode "20200101".toList, [], Key.newestTimestamp⟩) :=
    ⟨_, rfl, by decide +kernel⟩
  obtain ⟨filter, hfilter, hreject⟩ := hvalid
  exact ⟨filter, hfilter, hreject, check_decides hfilter amid⟩

end Filter

end DatedCounts
