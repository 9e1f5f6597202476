/-
# CommandLine.Effect -- what a command does to the world

A command comes to a list of effects and, if it fails, an error. The effects are performed in
order; the first that cannot be is where the command ends.
-/
import Retarget.Archive
import Retarget.Workspace

namespace Retarget

inductive Effect where
  | print (text : String)
  /-- Write to the error output. -/
  | complain (text : String)
  | makeDirectory (path : String)
  | writeFile (path text : String)
  /-- Store the tables of an archive. -/
  | store (path : String) (tables : Archive)
deriving Inhabited

/-- What a command has done so far. -/
structure Performed where
  workspace : Workspace
  output : String := ""
  complaints : String := ""
  stored : List (String × Archive) := []
deriving Inhabited

namespace Performed

def perform (p : Performed) : Effect → Except FileError Performed
  | .print text => .ok { p with output := p.output ++ text }
  | .complain text => .ok { p with complaints := p.complaints ++ text }
  | .makeDirectory path => do return { p with workspace := ← p.workspace.makeDirectory path }
  | .writeFile path text => do return { p with workspace := ← p.workspace.write path text }
  | .store path tables => .ok { p with stored := p.stored ++ [(path, tables)] }

/-- Perform effects in order up to the first that fails. -/
def performAll (p : Performed) : List Effect → Performed × Option FileError
  | [] => (p, none)
  | e :: es =>
    match p.perform e with
    | .ok p => performAll p es
    | .error fault => (p, some fault)

end Performed

/-- The names under which a store is kept in memory only. -/
def memoryStores : List String := ["", ":memory:"]

/-- Whether tables can be stored under a path: its directory is there, and no other kind of
file has the name. -/
def Workspace.canStore (w : Workspace) (path : String) : Bool :=
  let parts := Path.parts path
  memoryStores.contains path ||
    (w.isDirectory parts.dropLast && !w.isDirectory parts &&
      ((w.files.lookup parts).getD "").isEmpty)

end Retarget
