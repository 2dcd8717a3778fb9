import DatedCounts.Filter.Config

/-!
# Settings

A run has settings for its rollup and, if it filters, for its filter. They come from a configuration file
and from named options. In a configuration every setting may be missing. The format of the file is left to
a reader, which takes the settings from the text of the file.
-/

namespace DatedCounts

/-- The settings of a filter in a configuration file. -/
structure Filter.Config.Form where
  datatypes : Option (List String)
  first : Option String
  last : Option String
  maxNext : Option UInt64

def Filter.Config.ofForm (form : Form) : Config where
  datatypes := .ofList ((form.datatypes.getD []).map fun s => Utf8.encode s.toList)
  first := form.first
  last := form.last
  maxNext := (form.maxNext.getD 0).toNat

structure Settings where
  /-- Whether the labels of a group are combined. -/
  combines : Bool
  filter : Option Filter.Config
  deriving DecidableEq

namespace Settings

instance : Inhabited Settings := ⟨⟨false, none⟩⟩

/-- The settings in a configuration file. -/
structure Form where
  combines : Option Bool
  filter : Option Filter.Config.Form

def ofForm (form : Form) : Settings where
  combines := form.combines.getD false
  filter := form.filter.map .ofForm

/-- Takes the settings from a text, if it has the format of a configuration. -/
abbrev Reader := List Char → Option Form

def ofFile {α : Type} (read : List Char → Option α) (file : String) (content : Bytes) :
    Except Error α :=
  match Utf8.decode content with
  | .error fault => .error (.fileNotText fault file)
  | .ok text =>
    match read text with
    | some found => .ok found
    | none => .error (.configForm file)

def load (read : Reader) (file : String) (content : Bytes) : Except Error Settings :=
  (ofFile read file content).map ofForm

def combinesOfOptions (options : Options) : Except Error Bool :=
  (options.lookup "combine.visibilities").elim (.ok false)
    (Options.readBool "combine.visibilities")

def optionsOf (config : Filter.Config) : Options :=
  let datatypes := ",".intercalate (config.datatypes.toList.map Utf8.lossy)
  let date (name : String) (s : Option String) := s.toList.map fun s => (name, s)
  [("datatypes", datatypes)] ++ date "start.date" config.first ++ date "end.date" config.last ++
    [("max.next.count", toString config.maxNext)]

/-- The settings with options in place of those of the filter that they name. -/
def override (settings : Settings) (combines : Bool) (options : Options) :
    Except Error Settings := do
  let present := settings.filter.elim [] optionsOf
  let filter ←
    if options.isEmpty && settings.filter.isNone then .ok none
    else (Filter.Config.ofOptions (options ++ present)).map some
  .ok { combines := settings.combines || combines, filter }

end Settings

end DatedCounts
