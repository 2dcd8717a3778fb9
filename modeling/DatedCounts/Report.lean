import DatedCounts.Command
import DatedCounts.Cursor.Stack
import DatedCounts.Dump
import DatedCounts.Label.Conjunction
import DatedCounts.Toml.Settings

/-!
# Reports

A command reads a dump, rolls its records up and prints one line for each record of the result, and
then the statistics if they are asked for. What goes wrong is found before the first line is printed.
-/

namespace DatedCounts

structure Report where
  lines : List String
  error : Option Error
  deriving DecidableEq

namespace Report

def failure (e : Error) : Report := ⟨[], some e⟩

abbrev Files := String → Option Bytes

def contentOf (files : Files) (file : String) : Except Error Bytes :=
  match files file with
  | some content => .ok content
  | none => .error (.unreadable file)

/-- The settings of a command: those of its configuration file or of the first that is found, with the
options of the command in place of them. -/
def settings (read : Settings.Reader) (files : Files) (directories : List String)
    (command : Command) : Except Error Settings := do
  let found := (Command.configFiles directories).find? fun file => (files file).isSome
  let settings ← match command.config <|> found with
    | none => .ok default
    | some file => do Settings.load read file (← contentOf files file)
  settings.override command.combines command.filter

def layers (settings : Settings) : Except Error (List Layer) := do
  let rollup := Layer.rollup (if settings.combines then some Label.conjoin else none)
  match settings.filter with
  | none => .ok [rollup]
  | some config =>
    let filter ← Filter.ofConfig config
    .ok [rollup, .sieve filter config.maxNext]

def recordLine (key : Key) (m : DateMap) : String :=
  "\t".intercalate [Utf8.lossy key.row, Utf8.lossy key.family, Utf8.lossy key.qualifier,
    Utf8.lossy key.visibility, toString key.timestamp.toNat, m.render]

/-- The lines of records, up to the first that has no map as its value. -/
def recordLines : List Record → Report
  | [] => ⟨[], none⟩
  | (key, value) :: rest =>
    match DateMap.decode value with
    | .error fault => failure (.encoding fault)
    | .ok m =>
      let others := recordLines rest
      { others with lines := recordLine key m :: others.lines }

/-- The line of what a layer has counted. A store prints none. -/
def statsLine : LayerStats → Option String
  | .store _ => none
  | .sieve _ stats =>
    some ("Stats \x7b " ++ s!"n_accepted: {stats.accepted}, n_rejected: {stats.rejected}, " ++
      s!"n_seeks: {stats.seeks}, n_nexts: {stats.nexts}" ++ " \x7d")
  | .rollup _ stats =>
    some ("Stats \x7b " ++ s!"n_groups: {stats.groups}, n_input: {stats.input}, " ++
      s!"n_raw: {stats.raw}, n_aggregated: {stats.aggregated}, n_output: {stats.output}" ++ " \x7d")

def ofStack (layers : List Layer) (data : OrderedMap Key Bytes) (range : Range) (stats : Bool) :
    Report :=
  match Cursor.collect range (Stack.ofData data layers) with
  | (_, .error e) => failure e
  | (s, .ok records) =>
    let report := recordLines records
    let lines := if stats && report.error.isNone then (Stack.stats layers s).filterMap statsLine else []
    { report with lines := report.lines ++ lines }

/-- The report of a command, with a reader of configurations. -/
def ofCommand (read : Settings.Reader) (files : Files) (directories : List String)
    (command : Command) : Report :=
  let prepared := do
    let settings ← settings read files directories command
    let records ← Dump.read command.input (← contentOf files command.input)
    .ok (OrderedMap.ofList records, ← layers settings)
  match prepared with
  | .error e => failure e
  | .ok (data, layers) =>
    let range := command.row.elim .all fun row => .ofRow (Utf8.encode row.toList)
    ofStack layers data range command.stats

def run (files : Files) (directories : List String) (command : Command) : Report :=
  ofCommand Settings.toml files directories command

end Report

end DatedCounts
