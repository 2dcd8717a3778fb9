import DatedCounts.Pieces

/-!
# Command lines

A command line names the dump to read and may name a configuration file, a row and options that
override the configuration. Options stand in any order, each at most once, and take their value after
an equals sign or from the next argument.
-/

namespace DatedCounts

structure Command where
  input : String
  config : Option String
  row : Option String
  combines : Bool
  stats : Bool
  /-- The given options of the filter, by their names in the settings. -/
  filter : List (String × String)
  deriving DecidableEq, Repr

namespace Command

def valued : List String := ["toml", "input", "row", "datatypes", "start", "end", "max-next"]

def flags : List String := ["combine", "stats"]

def filterOptions : List (String × String) :=
  [("datatypes", "datatypes"), ("start", "start.date"), ("end", "end.date"),
    ("max-next", "max.next.count")]

/-- Whether an argument begins an option, so that it is not the value of the one before it. -/
def beginsOption (arg : String) : Bool := arg.toList.head? == some '-' && arg != "-"

/-- The name of an option, and the value after an equals sign if there is one. -/
def splitOption? (arg : String) : Option (String × Option String) :=
  match arg.toList with
  | '-' :: '-' :: cs =>
    let cs := cs.dropWhile fun c => c == '-'
    match cutAt? '=' cs with
    | some (name, value) => some (.ofList name, some (.ofList (value.dropWhile fun c => c == '=')))
    | none => some (.ofList cs, none)
  | _ => none

/-- The given options with their values, where a flag has an empty value. -/
def options? : List String → Option (List (String × String))
  | [] => some []
  | ["--"] => some []
  | arg :: rest => do
    let (name, value) ← splitOption? arg
    if flags.contains name then
      let others ← options? rest
      some ((name, "") :: others)
    else if valued.contains name then
      match value, rest with
      | some value, rest =>
        let others ← options? rest
        some ((name, value) :: others)
      | none, value :: rest =>
        if beginsOption value then none
        else
          let others ← options? rest
          some ((name, value) :: others)
      | none, [] => none
    else none

def parse? (args : List String) : Option Command := do
  let options ← options? args
  let input ← options.lookup "input"
  if (options.map (·.1)).Nodup then
    some {
      input
      config := options.lookup "toml"
      row := options.lookup "row"
      combines := (options.lookup "combine").isSome
      stats := (options.lookup "stats").isSome
      filter := filterOptions.filterMap fun (option, name) =>
        (options.lookup option).map fun value => (name, value) }
  else none

/-- The configuration files that are looked for in some directories. -/
def configFiles (directories : List String) : List String :=
  directories.flatMap fun directory => [directory ++ "/dfreq.toml", directory ++ "/.dfreq.toml"]

end Command

end DatedCounts
