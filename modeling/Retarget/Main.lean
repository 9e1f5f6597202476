/-
# Main -- the command line

Reads what a command may need from the file system, carries the command out and performs its
effects. Tables are stored as a script that inserts their rows.
-/
import Retarget.CommandLine.Run

namespace Retarget.Main

open Retarget.Text (join replaceAll)

/-! ## What a command reads -/

/-- A path and the paths that it leads through, the shortest one first. -/
def pathsThrough (path : String) : List String :=
  let components := Text.splitAt '/' path
  (List.range (components.length + 1)).map fun n =>
    Path.text ((components.take n).foldl Path.step (Path.root path))

/-- The words of a command that may be paths, and the paths that they lead through. -/
def pathsIn (words : List String) : List String :=
  let values := words ++ words.flatMap fun w => Text.splitAt '=' w ++ Text.splitAt ',' w
  let named := "." :: Command.usualStore :: values.filter (· != "")
  (named.flatMap pathsThrough).eraseDups

/-- Add what stands under a path: a file with its text, or a directory. -/
def look (w : Workspace) (path : String) : IO Workspace := do
  let parts := Path.parts path
  if w.isFile parts then return w
  try
    let text ← IO.FS.readFile path
    return { w with files := w.files ++ [(parts, text)] }
  catch
    | .inappropriateType .. => return { w with directories := w.directories ++ [parts] }
    | _ => return w

/-- The variables that settings are read from. -/
def variableNames : List String :=
  ["AODSOLVE_TARGET", "AODSOLVE_SOURCE", "AODSOLVE_MAX_PATH_DEPTH", "AODSOLVE_TRACE_DEPTH",
    "AODSOLVE_RULES", "AODSOLVE_VERBOSE"]

def session (words : List String) : IO Session := do
  let environment ← variableNames.filterMapM fun name => do
    return (← IO.getEnv name).map (name, ·)
  let rules := (Settings.ofEnvironment environment).rules
  let workspace ← (pathsIn (words ++ rules)).foldlM look {}
  return { environment := environment, workspace := workspace }

/-! ## What a command does -/

def cellText : Archive.Cell → String
  | .null => "NULL"
  | .integer n => toString n
  | .text s => "'" ++ replaceAll "'" "''" s ++ "'"

/-- A script that makes the tables of an archive and fills them. -/
def script (t : Archive) : String :=
  String.join (Archive.schema.map fun (table, columns) =>
    "CREATE TABLE " ++ table ++ " (" ++ join ", " columns ++ ");\n" ++
      String.join ((t.rows table).map fun row =>
        "INSERT INTO " ++ table ++ " VALUES (" ++ join ", " (row.map cellText) ++ ");\n"))

def perform : Effect → IO Unit
  | .print text => IO.print text
  | .complain text => IO.eprint text
  | .makeDirectory path => IO.FS.createDirAll path
  | .writeFile path text => IO.FS.writeFile path text
  | .store path tables =>
    if memoryStores.contains path then pure () else IO.FS.writeFile path (script tables)

end Retarget.Main

open Retarget in
def main (words : List String) : IO UInt32 := do
  let session ← Main.session words
  let ⟨outcome, log⟩ := session.run words
  for entry in log do
    if entry.isShown outcome.verbose then IO.eprintln entry.line
  try
    outcome.effects.forM Main.perform
  catch e =>
    IO.eprintln s!"Error: {e}"
    return 1
  match outcome.error with
  | none => return 0
  | some e =>
    IO.eprintln ("Error: " ++ e.message)
    return 1
