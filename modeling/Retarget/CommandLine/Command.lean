/-
# CommandLine.Command -- the commands and how words become one

The first word that is neither a flag nor a flag's value names the command; flags may stand
before and after it. Each command has flags of its own beside those for the settings.
-/
import Retarget.CommandLine.SettingsFlags

namespace Retarget

open Retarget.Text (startsWith contains join quoted)

inductive Command where
  | translate | analyze | dot | trace | rules | archive | help
deriving Repr, DecidableEq, Inhabited

namespace Command

def all : List Command := [analyze, dot, archive, help, rules, trace, translate]

def name : Command → String
  | translate => "translate"
  | analyze => "analyze"
  | dot => "dot"
  | trace => "trace"
  | rules => "rules"
  | archive => "export"
  | help => "help"

def ofName? (s : String) : Option Command := all.find? (·.name == s)

/-- The kinds of report that can be asked for. -/
def reportKinds : List String := ["comprehensive", "performance", "plan", "callgraph"]

/-- The reports printed when none are asked for. -/
def usualReports : List String := ["comprehensive", "performance", "callgraph"]

/-- The graph drawn when none is asked for. -/
def usualGraph : String := "icfg"

/-- The file results are stored in when none is named. -/
def usualStore : String := "aodsolve.db"

def funcFlag (usage : String) : Flag := { name := "func", short := some 'f', usage := usage }

/-- The flags of a command beside those for the settings. -/
def ownFlags : Command → List Flag
  | translate => [funcFlag "translate only this function",
      { name := "out", short := some 'o'
        usage := "write one <func>_<target>.c file per function into this directory" }]
  | analyze => [funcFlag "analyse only this function",
      { name := "report", kind := .list
        usage := "reports to print (" ++ join ", " reportKinds ++ ")" }]
  | dot => [funcFlag "function to draw",
      { name := "graph", short := some 'g', usage := "graph to draw: icfg, pdg or aod" }]
  | trace => [funcFlag "function holding the variable",
      { name := "var", usage := "variable to trace" }]
  | rules => [{ name := "category", short := some 'c', usage := "list only this category" },
      { name := "export", kind := .switch, usage := "write the whole database as YAML" }]
  | archive => [{ name := "db", usage := "SQLite database to write" }]
  | help => []

/-- The flag every command answers with its description. -/
def helpFlag (name : String) : Flag :=
  { name := "help", short := some 'h', kind := .switch, usage := "help for " ++ name }

def flags (c : Command) : List Flag := c.ownFlags ++ Settings.flags ++ [helpFlag c.name]

/-- The number of operands a command takes, where it is fixed. -/
def operandCount? : Command → Option Nat
  | dot | trace => some 1
  | rules => some 0
  | _ => none

/-- The flags that have to be given. -/
def required : Command → List String
  | dot => ["func"]
  | trace => ["func", "var"]
  | _ => []

end Command

/-- What is wrong with the words of a command. -/
inductive UsageError where
  | unknownCommand (name : String)
  | flag (fault : FlagFault)
  | operands (command : String) (got : Nat)
  | notGiven (flags : List String)
deriving Repr, DecidableEq, Inhabited

def UsageError.message : UsageError → String
  | unknownCommand name => "unknown command " ++ quoted name ++ " for \"aodsolve\""
  | flag fault => fault.message
  | operands command got => command ++ " does not take " ++ toString got ++ " arguments"
  | notGiven flags => "required flag(s) " ++ join ", " (flags.map quoted) ++ " not set"

/-- A command with what was given for it. Without a command the help is asked for. -/
structure Invocation where
  command : Option Command
  given : Given := []
  operands : List String := []
  wantsHelp : Bool := false
deriving Repr, Inhabited

namespace Invocation

/-- Whether the word after a flag is its value: the flag has no equals sign, and is not known
as a switch. -/
def takesNext (flags : List Flag) (word : String) : Bool :=
  let isSwitch (p : Flag → Bool) := flags.any fun f => f.kind == .switch && p f
  !contains word "=" &&
    match word.toList with
    | '-' :: '-' :: body => !isSwitch (·.name == String.ofList body)
    | ['-', c] => c.utf8Size == 1 && !isSwitch (·.short == some c)
    | _ => false

/-- The first word that is neither a flag nor a flag's value. The search ends at a flag that
is followed by one word only. -/
def firstWord? (flags : List Flag) : List String → Option String
  | [] => none
  | word :: rest =>
    if word == "--" then none
    else if takesNext flags word then
      match rest with
      | _ :: next :: more => firstWord? flags (next :: more)
      | _ => none
    else if word != "" && !startsWith word "-" then some word
    else firstWord? flags rest

/-- The words without the one that names the command. -/
def withoutWord (flags : List Flag) (name : String) : List String → List String
  | [] => []
  | word :: rest =>
    if word == "--" then word :: rest
    else if takesNext flags word then
      match rest with
      | value :: more => word :: value :: withoutWord flags name more
      | [] => [word]
    else if word == name then rest
    else word :: withoutWord flags name rest

/-- The flags that can stand where no command is named. -/
def rootFlags : List Flag := Settings.flags ++ [Command.helpFlag "aodsolve"]

def ofParsed (command : Option Command) (p : Parsed) : Except UsageError Invocation :=
  match p.fault with
  | some fault => .error (.flag fault)
  | none =>
    .ok { command := command, given := p.given, operands := p.operands
          wantsHelp := p.given.switch "help" || command.isNone }

/-- Whether the operands are as many as the command takes. -/
def checked (i : Invocation) : Except UsageError Invocation :=
  match i.wantsHelp, i.command with
  | false, some c =>
    if c.operandCount?.all (· == i.operands.length) then .ok i
    else .error (.operands c.name i.operands.length)
  | _, _ => .ok i

/-- Read the words of a command. -/
def ofWords (words : List String) : Except UsageError Invocation := do
  match firstWord? Settings.flags words with
  | none => ofParsed none (readFlags rootFlags {} words)
  | some name =>
    match Command.ofName? name with
    | none => .error (.unknownCommand name)
    | some c =>
      (← ofParsed (some c) (readFlags c.flags {} (withoutWord Settings.flags name words))).checked

/-- The flags that are missing. -/
def missing (i : Invocation) : List String :=
  ((i.command.map (·.required)).getD []).filter (!i.given.has ·)

end Invocation

end Retarget
