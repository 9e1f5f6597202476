/-
# Workspace -- the files below the working directory

A run sees a set of files under relative paths, and may add directories and files to it. A
path is followed component by component: a dot stays, a double dot goes up one step, and every
component but the last has to be a directory.
-/
import Retarget.Text.Basic

namespace Retarget

open Retarget.Text (splitAt join startsWith)

/-! ## Paths -/

namespace Path

/-- Add a component to a resolved path. A double dot takes the last one away, unless there is
none left or it is a double dot itself. -/
def step (path : List String) (part : String) : List String :=
  if part == "" || part == "." then path
  else if part == ".." then
    match path.getLast? with
    | none => [".."]
    | some "/" => path
    | some ".." => path ++ [".."]
    | some _ => path.dropLast
  else path ++ [part]

/-- Where a path starts: an absolute one at the slash. -/
def root (path : String) : List String := if startsWith path "/" then ["/"] else []

/-- The components of a path. -/
def parts (path : String) : List String := (splitAt '/' path).foldl step (root path)

/-- A path in its shortest spelling. -/
def text : List String → String
  | [] => "."
  | "/" :: rest => "/" ++ join "/" rest
  | path => join "/" path

/-- The path of an entry of a directory. -/
def within (directory entry : String) : String := text (parts (directory ++ "/" ++ entry))

end Path

/-! ## Files -/

/-- Why a file cannot be read or written. -/
inductive FileError where
  /-- There is no such file. -/
  | missing (path : String)
  /-- A directory stands where a file is wanted. -/
  | isDirectory (path : String)
  /-- A file stands where a directory is wanted. -/
  | notDirectory (path : String)
deriving Repr, DecidableEq, Inhabited

def FileError.message : FileError → String
  | missing path => "open " ++ path ++ ": no such file or directory"
  | isDirectory path => "open " ++ path ++ ": is a directory"
  | notDirectory path => "open " ++ path ++ ": not a directory"

/-- The files and the directories that were made, by their resolved paths. -/
structure Workspace where
  files : List (List String × String) := []
  directories : List (List String) := []
deriving Repr, Inhabited

namespace Workspace

def ofFiles (files : List (String × String)) : Workspace :=
  { files := files.map fun (path, text) => (Path.parts path, text) }

variable (w : Workspace)

def isFile (path : List String) : Bool := w.files.any (·.1 == path)

/-- A directory was made, or has a file somewhere below it. What lies above the working
directory is one too. -/
def isDirectory (path : List String) : Bool :=
  path.all (· == "..") || path == ["/"] || w.directories.contains path ||
    w.files.any fun (file, _) => path.isPrefixOf file && file != path

/-- Why no path leads through `here`. -/
def notThrough (here : List String) (path : String) : FileError :=
  if w.isFile here then .notDirectory path else .missing path

/-- Follow a path, going through directories that are there. -/
def resolve (path : String) : Except FileError (List String) :=
  if path == "" then .error (.missing path)
  else (splitAt '/' path).foldlM (fun here part =>
    if w.isDirectory here then .ok (Path.step here part) else .error (w.notThrough here path))
    (Path.root path)

def read (path : String) : Except FileError String := do
  let parts ← w.resolve path
  match w.files.lookup parts with
  | some text => .ok text
  | none => .error (if w.isDirectory parts then .isDirectory path else .missing path)

/-- Make a directory and the directories on the way to it. -/
def makeDirectory (path : String) : Except FileError Workspace := do
  let (w, _) ← (splitAt '/' path).foldlM (fun ((w, here) : Workspace × List String) part =>
    let next := Path.step here part
    if w.isFile next then .error (.notDirectory path)
    else if w.isDirectory next then .ok (w, next)
    else .ok ({ w with directories := w.directories ++ [next] }, next)) (w, Path.root path)
  return w

/-- Write a file into a directory that is there. -/
def write (path text : String) : Except FileError Workspace := do
  let parts ← w.resolve path
  if w.isDirectory parts then .error (.isDirectory path)
  else .ok { w with files := w.files.filter (·.1 != parts) ++ [(parts, text)] }

end Workspace

end Retarget
