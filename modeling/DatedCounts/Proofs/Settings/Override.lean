import DatedCounts.Proofs.Settings.Respelled
import DatedCounts.Toml.Settings

/-!
# Options over a configuration

The settings of a file pass through the syntax of options before other options take their place. So an
option counts as it is given, and a setting that no option names counts as it is read back. That leaves the
count and all plain settings as they are in the file, but no others.
-/

namespace DatedCounts.Settings

/-! ### The settings of a file -/

section Load

variable {read : Reader} {file : String} {content : Bytes} {settings : Settings}
  {config : Filter.Config}

theorem exists_form (hfile : load read file content = .ok settings)
    (hfilter : settings.filter = some config) : ∃ form, config = .ofForm form := by
  obtain ⟨form, _, rfl⟩ := map_eq_ok.1 hfile
  obtain ⟨found, _, rfl⟩ := Option.map_eq_some_iff.1 hfilter
  exact ⟨found, rfl⟩

theorem maxNext_lt (hfile : load read file content = .ok settings)
    (hfilter : settings.filter = some config) : config.maxNext < UInt64.size := by
  obtain ⟨form, rfl⟩ := exists_form hfile hfilter
  exact UInt64.toNat_lt _

theorem datatypes_are_texts (hfile : load read file content = .ok settings)
    (hfilter : settings.filter = some config) :
    ∀ datatype ∈ config.datatypes.toList, ∃ cs, Utf8.encode cs = datatype := by
  obtain ⟨form, rfl⟩ := exists_form hfile hfilter
  intro datatype hmem
  obtain ⟨s, _, hs⟩ := List.mem_map.1 (OrderedSet.mem_ofList.1 hmem)
  exact ⟨s.toList, hs⟩

end Load

/-! ### Options over the settings of a file -/

def kept (settings : Settings) : Filter.Config :=
  (settings.filter.map Filter.Config.respelled).getD default

theorem override_eq {settings : Settings}
    (hcount : ∀ config ∈ settings.filter, config.maxNext < UInt64.size) (combines : Bool)
    {options : Options} (hfilters : ¬ (options.isEmpty && settings.filter.isNone)) :
    settings.override combines options =
      (settings.kept.overridden options).map fun config =>
        ⟨settings.combines || combines, some config⟩ := by
  have hover : Filter.Config.ofOptions (options ++ settings.filter.elim [] optionsOf) =
      settings.kept.overridden options := by
    rw [kept]
    cases hfilter : settings.filter with
    | none =>
      rw [Option.elim_none, List.append_nil]
      exact Filter.Config.ofOptions_eq options
    | some config => exact ofOptions_over config (hcount config hfilter) options
  simp only [override, if_neg hfilters, hover]
  cases settings.kept.overridden options <;> rfl

/-- Each setting is the one that an option gives, and if there is none, the one that is read back from
the file. With no option the settings of the file are valid if they are so as they are read back, which
they are if they are valid in the file. They are read back as they are in the file just when they are
plain. -/
theorem override_respells {read : Reader} {file : String} {content : Bytes} {settings : Settings}
    (hfile : load read file content = .ok settings) (combines : Bool) (options : Options) :
    (∀ result config, settings.override combines options = .ok result →
      result.filter = some config → Filter.Config.IsOverride options settings.kept config) ∧
    ∀ config, settings.filter = some config →
      (∀ e, settings.override combines [] = .error e ↔ config.respelled.window = .error e) ∧
      (∀ dates, config.window = .ok dates → config.respelled.window = .ok dates) ∧
      config.respelled.maxNext = config.maxNext ∧ (config.respelled = config ↔ config.IsPlain) := by
  have hcount : ∀ config ∈ settings.filter, config.maxNext < UInt64.size := fun config hfilter =>
    maxNext_lt hfile hfilter
  refine ⟨fun result config h hresult => ?_, fun config hfilter => ⟨fun e => ?_, fun dates h => ?_,
    rfl, Filter.Config.respelled_eq_self_iff⟩⟩
  · by_cases hfilters : options.isEmpty && settings.filter.isNone
    · simp only [override, if_pos hfilters] at h
      cases h
      cases hresult
    · rw [override_eq hcount combines hfilters] at h
      cases hover : settings.kept.overridden options with
      | error e =>
        rw [hover] at h
        cases h
      | ok found =>
        rw [hover] at h
        cases h
        cases hresult
        exact Filter.Config.isOverride_of_overridden hover
  · have hfilters : ¬ (([] : Options).isEmpty && settings.filter.isNone) := by simp [hfilter]
    rw [override_eq hcount combines hfilters, kept, hfilter, Option.map_some, Option.getD_some,
      Filter.Config.overridden_nil, Filter.Config.checked]
    cases config.respelled.window <;> simp [Except.map]
  · exact Filter.Config.window_respelled (datatypes_are_texts hfile hfilter) h

/-- A configuration file with a datatype that has a comma in it. -/
def tornFile : Bytes :=
  Utf8.encode ("[filter]\ndatatypes = [\"a,b\"]\nstart_date = \"20200101\"\n" ++
    "end_date = \"20201231\"\n").toList

def tornConfig : Filter.Config :=
  ⟨.ofList [Utf8.encode ['a', ',', 'b']], some "20200101", some "20201231", 0⟩

theorem override_respells_torn :
    let settings : Settings := ⟨false, some tornConfig⟩
    let result : Filter.Config := { tornConfig with
      datatypes := .ofList [Utf8.encode ['a'], Utf8.encode ['b']]
      maxNext := 7 }
    load toml "dfreq.toml" tornFile = .ok settings ∧
    settings.override false [("max.next.count", "7")] = .ok ⟨false, some result⟩ ∧
    Filter.Config.IsOverride [("max.next.count", "7")] settings.kept result ∧
    ¬ tornConfig.IsPlain := by
  intro settings result
  have hfile : load toml "dfreq.toml" tornFile = .ok settings := by decide +kernel
  have hresult : settings.override false [("max.next.count", "7")] = .ok ⟨false, some result⟩ := by
    decide +kernel
  obtain ⟨hoverride, hread⟩ := override_respells hfile false [("max.next.count", "7")]
  obtain ⟨_, _, _, hself⟩ := hread tornConfig rfl
  refine ⟨hfile, hresult, hoverride _ _ hresult rfl, fun h => ?_⟩
  exact absurd (hself.2 h) (by decide +kernel)

/-- The settings of a file are not always kept as they are in the file. -/
theorem not_override_exact : ¬ ∀ (file : String) (content : Bytes) (settings result : Settings)
    (combines : Bool) (options : Options) (config : Filter.Config),
    load toml file content = .ok settings →
    settings.override combines options = .ok result → result.filter = some config →
    Filter.Config.IsOverride options (settings.filter.getD default) config := by
  intro h
  have hfile : load toml "dfreq.toml" tornFile = .ok ⟨false, some tornConfig⟩ := by
    decide +kernel
  have hresult : Settings.override ⟨false, some tornConfig⟩ false [] = .ok ⟨false, some
      { tornConfig with datatypes := .ofList [Utf8.encode ['a'], Utf8.encode ['b']] }⟩ := by
    decide +kernel
  have hdatatypes := (h _ _ _ _ _ _ _ hfile hresult rfl).datatypes
  exact absurd hdatatypes (by decide +kernel)

end DatedCounts.Settings
