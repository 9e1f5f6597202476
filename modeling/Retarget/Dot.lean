/-
# Dot -- digraphs as DOT text

Node and edge statements in the order they are added, under one header. Labels keep the first
line of a text, cut to fifty bytes, with the eight characters escaped that a record label
reserves. Both are told of bytes, so that a cut may fall inside a character.
-/
import Retarget.Text.Basic
import Retarget.Text.Bytes

namespace Retarget.Dot

open Retarget.Text (join bytes ofBytes trimBytes shortenBytes sorted)

/-! ## Escapes -/

def newline : UInt8 := '\n'.toUInt8
def backslash : UInt8 := '\\'.toUInt8
def quote : UInt8 := '"'.toUInt8

/-- The mark after a backslash that stands for a new line. -/
def newlineMark : UInt8 := 'n'.toUInt8

/-- The characters a label reserves; a new line is written as the letter n. -/
def isReserved (b : UInt8) : Bool :=
  (['\\', '"', '<', '>', '\x7b', '\x7d', '|'].map Char.toUInt8).contains b

def escapeBytes : List UInt8 → List UInt8
  | [] => []
  | b :: bs =>
    if b == newline then backslash :: newlineMark :: escapeBytes bs
    else if isReserved b then backslash :: b :: escapeBytes bs
    else b :: escapeBytes bs

def escape (s : String) : String := ofBytes (escapeBytes (bytes s))

def maxLabel : Nat := 50

/-- The first line, trimmed and cut, before it is escaped. -/
def labelText (s : List UInt8) : List UInt8 :=
  shortenBytes maxLabel (trimBytes (s.takeWhile (· != newline)))

def labelBytes (s : List UInt8) : List UInt8 := escapeBytes (labelText s)

def label (s : String) : String := ofBytes (labelBytes (bytes s))

/-! ## Statements -/

abbrev Attributes := List (String × String)

/-- Attributes in the order of their keys, each value between quotes as it stands. -/
def attributeText (attrs : Attributes) : String :=
  if attrs.isEmpty then ""
  else
    let ordered := attrs.mergeSort fun a b => !(b.1 < a.1)
    " [" ++ join ", " (ordered.map fun (k, v) => k ++ "=\"" ++ v ++ "\"") ++ "]"

inductive Statement where
  | node (id : String) (attrs : Attributes)
  | edge (source target : String) (attrs : Attributes)
deriving Repr, Inhabited

def Statement.text : Statement → String
  | node id attrs => "  " ++ id ++ attributeText attrs ++ ";\n"
  | edge source target attrs =>
    "  " ++ source ++ " -> " ++ target ++ attributeText attrs ++ ";\n"

/-- A whole digraph with box-shaped nodes. -/
def digraph (name : String) (statements : List Statement) : String :=
  "digraph \"" ++ escape name ++ "\" \x7b\n  rankdir=TB;\n" ++
    "  node [shape=box, fontname=\"Courier\"];\n" ++
    String.join (statements.map Statement.text) ++ "\x7d\n"

end Retarget.Dot
