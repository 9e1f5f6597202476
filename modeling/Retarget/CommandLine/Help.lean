/-
# CommandLine.Help -- the description of a command

What the command does, how it is called, and its flags, which are listed by name with the
values they have when they are not given.
-/
import Retarget.CommandLine.Command

namespace Retarget

open Retarget.Text (join quoted rawQuoted sorted trimEnd)

namespace Command

def summary : Command → String
  | translate => "Generate target code for every function, or one with --func"
  | analyze => "Print analysis reports"
  | dot => "Print a function's ICFG, PDG or AOD graph in Graphviz format"
  | trace => "Trace where a variable's values come from and go to, across calls"
  | rules => "List the rule catalogs, including files given with --rules"
  | archive => "Analyse the inputs and store graphs and translations in SQLite"
  | help => "Help about any command"

def description : Command → String
  | help => "Help provides help for any command in the application.\n" ++
      "Simply type aodsolve help [path to command] for full details."
  | c => c.summary

/-- The operands after the name. -/
def pattern : Command → String
  | translate | analyze | archive => " [files...]"
  | dot => " --func name file"
  | trace => " --func name --var v file"
  | rules => ""
  | help => " [command]"

/-- The values of a command's own flags when they are not given. -/
def usualValues : Command → Given
  | analyze => [("report", .list usualReports)]
  | dot => [("graph", .text usualGraph)]
  | archive => [("db", .text usualStore)]
  | _ => []

end Command

namespace Help

/-- The word for the value a flag takes. -/
def valueWord : FlagKind → String
  | .text => " string"
  | .integer => " int"
  | .switch => ""
  | .list => " strings"

def flagHead (f : Flag) : String :=
  (match f.short with
    | some c => "  -" ++ String.singleton c ++ ", --"
    | none => "      --") ++ f.name ++ valueWord f.kind

/-- The value of a flag that is not given, unless it is nothing. -/
def usualText : FlagValue → String
  | .text "" | .integer 0 | .switch false | .list [] => ""
  | .text value => " (default " ++ quoted value ++ ")"
  | .integer n => " (default " ++ toString n ++ ")"
  | .switch true => " (default true)"
  | .list words => " (default [" ++ join "," words ++ "])"

def flagLine (width : Nat) (values : Given) (f : Flag) : String :=
  let head := flagHead f
  trimEnd [' '] (head ++ Text.repeated " " (width + 3 - head.length) ++ f.usage ++
    ((values.lookup f.name).map usualText).getD "") ++ "\n"

/-- Flags by name, their descriptions under each other. -/
def flagLines (values : Given) (flags : List Flag) : String :=
  let width := ((flags.map fun f => (flagHead f).length).max?).getD 0
  let names := sorted (flags.map (·.name))
  String.join (names.filterMap fun n =>
    (flags.find? (·.name == n)).map (flagLine width values))

def ofCommand (s : Settings) (c : Command) : String :=
  c.description ++ "\n\nUsage:\n  aodsolve " ++ c.name ++ c.pattern ++ " [flags]\n\nFlags:\n" ++
    flagLines c.usualValues (c.ownFlags ++ [Command.helpFlag c.name]) ++
    "\nGlobal Flags:\n" ++ flagLines s.values Settings.flags

/-- The width of the list of commands. -/
def nameWidth : Nat := 12

/-- How the program is called: its commands and the flags of all of them. -/
def usage (s : Settings) : String :=
  let entries := [("completion",
      "Generate the autocompletion script for the specified shell")] ++
    Command.all.map fun c => (c.name, c.summary)
  let lines := (sorted (entries.map (·.1))).map fun n =>
    "  " ++ n ++ Text.repeated " " (nameWidth - n.length) ++ (entries.lookup n).getD "" ++ "\n"
  "Usage:\n  aodsolve [command]\n\nAvailable Commands:\n" ++ String.join lines ++ "\nFlags:\n" ++
    flagLines s.values Invocation.rootFlags ++
    "\nUse \"aodsolve [command] --help\" for more information about a command.\n"

/-- What the program does and how it is called. -/
def ofProgram (s : Settings) : String :=
  "Translate x86 SIMD kernels to Arm SVE and NEON\n\n" ++ usage s

/-- The answer to words that name no command. -/
def unknownTopic (s : Settings) (words : List String) : String :=
  "Unknown help topic [" ++ join " " (words.map rawQuoted) ++ "]\n" ++ usage s

end Help

end Retarget
