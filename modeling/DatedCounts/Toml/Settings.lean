import DatedCounts.Settings
import DatedCounts.Toml.Reader

/-!
# Settings of a configuration

The settings are under fixed keys of two tables. Keys that name no setting are passed over.
-/

namespace DatedCounts

namespace Toml

def optional {α : Type} (read : Item → Option α) : Option Item → Option (Option α)
  | none => some none
  | some item => (read item).map some

/-- Applies a reader to the whole table of a document. -/
def whole {α : Type} (read : Item → Option α) (text : List Char) : Option α :=
  (parse text).bind fun table => read (.table table)

end Toml

def Filter.Config.Form.ofItem? (item : Toml.Item) : Option Form := do
  match ← item.fields? ["datatypes", "start_date", "end_date", "max_next_count"] with
  | [datatypes, first, last, maxNext] =>
    some {
      datatypes := ← Toml.optional Toml.Item.strings? datatypes
      first := ← Toml.optional Toml.Item.string? first
      last := ← Toml.optional Toml.Item.string? last
      maxNext := ← Toml.optional Toml.Item.count? maxNext }
  | _ => none

def Filter.Config.ofItem? (item : Toml.Item) : Option Filter.Config :=
  (Form.ofItem? item).map ofForm

namespace Settings

def combinesOfItem? (item : Toml.Item) : Option Bool := do
  match ← item.fields? ["combine_visibilities"] with
  | [combines] => some ((← Toml.optional Toml.Item.boolean? combines).getD false)
  | _ => none

def Form.ofItem? (item : Toml.Item) : Option Form := do
  match ← item.fields? ["aggregator", "filter"] with
  | [rollup, filter] =>
    some {
      combines := ← Toml.optional combinesOfItem? rollup
      filter := ← Toml.optional Filter.Config.Form.ofItem? filter }
  | _ => none

def toml : Reader := Toml.whole Form.ofItem?

/-- Reads a configuration file of the given content. -/
def ofContent {α : Type} (read : Toml.Item → Option α) (file : String) (content : Bytes) :
    Except Error α :=
  ofFile (Toml.whole read) file content

end Settings

end DatedCounts
