import GuardedData.CommandLine.Arguments

/-!
# Help texts

A help text says what a command is for, how it is written, and lists what may be given in two
columns.
-/

namespace GuardedData.CommandLine

def program : String := "vigil"

def version : String := "0.0.0"

/-- Lines of two columns, the second of which is aligned. -/
def columns (rows : List (String × String)) : String :=
  let width := (rows.map (·.1.length)).foldl max 0
  String.join <| rows.map fun (left, right) =>
    "  " ++ left ++ String.ofList (List.replicate (width + 2 - left.length) ' ') ++ right ++ "\n"

def help : String :=
  "Schema checks and guarded model replays\n\nUsage: " ++ program ++ " <COMMAND>\n\nCommands:\n" ++
    columns (CommandName.all.map (fun c => (c.text, c.about)) ++
      [("help", "Print this message or the help of the given subcommand(s)")]) ++
    "\nOptions:\n" ++ columns [("-h, --help", "Print help"), ("-V, --version", "Print version")]

namespace OptionSpec

/-- An option with the name of its value. -/
def form (spec : OptionSpec) : String :=
  "--" ++ spec.name ++ " <" ++ String.ofList (spec.name.toList.map Char.toUpper) ++ ">"

/-- What an option is for, and what it is when left out. -/
def note (spec : OptionSpec) : String :=
  match spec.default? with
  | none => spec.about
  | some value => spec.about ++ " [default: " ++ value ++ "]"

end OptionSpec

def usage (c : CommandName) : String :=
  let required := c.options.filter (·.default?.isNone)
  let others := if c.options.any (·.default?.isSome) then [" [OPTIONS]"] else []
  "Usage: " ++ program ++ " " ++ c.text ++
    String.join (others ++ required.map fun spec => " " ++ spec.form)

def helpOn (c : CommandName) : String :=
  c.about ++ "\n\n" ++ usage c ++ "\n\nOptions:\n" ++
    columns (c.options.map (fun spec => (indent ++ spec.form, spec.note)) ++
      [("-h, --help", "Print help")])
where
  /-- The room for a short form. -/
  indent : String := "    "

def helpOnHelp : String :=
  "Print this message or the help of the given subcommand(s)\n\nUsage: " ++ program ++
    " help [COMMAND]...\n\nArguments:\n" ++
    columns [("[COMMAND]...", "Print help for the subcommand(s)")]

end GuardedData.CommandLine
