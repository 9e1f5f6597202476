/-
# CommandLine.SettingsFlags -- settings given by flags

The flags every command takes. A flag given more than once has its last value, a list all of
its words.
-/
import Retarget.CommandLine.Flag
import Retarget.Settings

namespace Retarget.Settings

open Retarget.Text (join)

def flags : List Flag := [
  { name := "target", short := some 't'
    usage := "target architecture (" ++ join ", " (Architecture.all.map (·.name)) ++ ")" },
  { name := "source", short := some 's', usage := "architecture of the input intrinsics" },
  { name := "max-path-depth", kind := .integer
    usage := "longest path, in nodes, reported by path searches" },
  { name := "trace-depth", kind := .integer, usage := "call depth followed by definition traces" },
  { name := "rules", kind := .list, usage := "extra rule catalog files (YAML)" },
  { name := "headers", kind := .switch, usage := "emit #include lines in generated code" },
  { name := "loops", kind := .switch, usage := "include vectorized loops in reports" },
  { name := "verbose", short := some 'v', kind := .switch, usage := "log analysis progress" }]

/-- The settings as values of their flags. -/
def values (s : Settings) : Given := [
  ("target", .text s.target), ("source", .text s.source),
  ("max-path-depth", .integer s.maxPathDepth), ("trace-depth", .integer s.traceDepth),
  ("rules", .list s.rules), ("headers", .switch s.headers), ("loops", .switch s.loops),
  ("verbose", .switch s.verbose)]

/-- The settings with one of their flags given. -/
def withFlag (s : Settings) : String × FlagValue → Settings
  | ("target", .text name) => { s with target := name }
  | ("source", .text name) => { s with source := name }
  | ("max-path-depth", .integer n) => { s with maxPathDepth := n }
  | ("trace-depth", .integer n) => { s with traceDepth := n }
  | ("rules", .list files) => { s with rules := files }
  | ("headers", .switch b) => { s with headers := b }
  | ("loops", .switch b) => { s with loops := b }
  | ("verbose", .switch b) => { s with verbose := b }
  | _ => s

def withFlags (s : Settings) (given : Given) : Settings := given.foldl withFlag s

end Retarget.Settings
