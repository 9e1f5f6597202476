/-
# CommandLine.Flag -- flags among the words of a command

A flag is written long (two dashes and its name) or short (a dash and its letter). Its value
follows after an equals sign or as the next word; after a short flag it may also follow at
once. A switch needs no value, and short switches may share one dash. Two dashes alone end the
flags. Reading stops at the first fault, and what was given before it stays.
-/
import Retarget.Text.Integer
import Retarget.Text.Quoted
import Retarget.Text.Record

namespace Retarget

open Retarget.Text (startsWith dropStart quoted readLiteral)

/-- What kind of value a flag takes. -/
inductive FlagKind where
  | text | integer | switch | list
deriving Repr, DecidableEq, Inhabited

structure Flag where
  name : String
  short : Option Char := none
  kind : FlagKind := .text
  /-- What the help says of it. -/
  usage : String := ""
deriving Repr, DecidableEq, Inhabited

inductive FlagValue where
  | text (value : String)
  | integer (value : Int)
  | switch (value : Bool)
  | list (values : List String)
deriving Repr, DecidableEq, Inhabited

inductive FlagFault where
  | malformed (word : String)
  | unknown (name : String)
  | unknownShort (letter : Char) (word : String)
  | noValue (name : String)
  | badValue (name value : String)
deriving Repr, DecidableEq, Inhabited

def FlagFault.message : FlagFault → String
  | malformed word => "bad flag syntax: " ++ word
  | unknown name => "unknown flag: --" ++ name
  | unknownShort letter word =>
    "unknown shorthand flag: '" ++ String.singleton letter ++ "' in -" ++ word
  | noValue name => "flag needs an argument: --" ++ name
  | badValue name value => "invalid argument " ++ quoted value ++ " for --" ++ name

/-! ## Values -/

/-- The spellings of a truth value. -/
def readSwitch (value : String) : Option Bool :=
  if ["1", "t", "T", "true", "TRUE", "True"].contains value then some true
  else if ["0", "f", "F", "false", "FALSE", "False"].contains value then some false
  else none

/-- The values given so far, one for each flag. -/
abbrev Given := List (String × FlagValue)

namespace Given

def put (g : Given) (name : String) (value : FlagValue) : Given :=
  g.filter (·.1 != name) ++ [(name, value)]

/-- Add words to a list; the first use of the flag starts a new one. -/
def append (g : Given) (name : String) (words : List String) : Given :=
  match g.lookup name with
  | some (.list old) => g.put name (.list (old ++ words))
  | _ => g.put name (.list words)

def text (g : Given) (name fallback : String) : String :=
  match g.lookup name with
  | some (.text value) => value
  | _ => fallback

def switch (g : Given) (name : String) : Bool := g.lookup name == some (.switch true)

def list (g : Given) (name : String) (fallback : List String) : List String :=
  match g.lookup name with
  | some (.list words) => words
  | _ => fallback

def has (g : Given) (name : String) : Bool := (g.lookup name).isSome

end Given

/-- The words of a list value; an empty text is an empty list. -/
def readList (value : String) : Option (List String) :=
  if value == "" then some [] else Text.Record.read? value

/-- Give a flag a value. A number or a switch that cannot be read is given as far as it was
read: the nearest number, or zero, or off. -/
def Flag.give (f : Flag) (g : Given) (value : String) : Given × Option FlagFault :=
  let fault := FlagFault.badValue f.name value
  match f.kind with
  | .text => (g.put f.name (.text value), none)
  | .integer =>
    let n := readLiteral value
    (g.put f.name (.integer n.clamped), if n.value?.isSome then none else some fault)
  | .switch =>
    match readSwitch value with
    | some b => (g.put f.name (.switch b), none)
    | none => (g.put f.name (.switch false), some fault)
  | .list =>
    match readList value with
    | some words => (g.append f.name words, none)
    | none => (g, some fault)

/-! ## Words -/

/-- What a word with flags comes to: the values in it, then a flag that waits for the next
word, or a fault. -/
structure FlagWord where
  uses : List (Flag × String) := []
  waiting : Option Flag := none
  fault : Option FlagFault := none

/-- A word after its two dashes. -/
def longFlag (flags : List Flag) (body : String) : FlagWord :=
  let name := String.ofList (body.toList.takeWhile (· != '='))
  if startsWith body "-" || startsWith body "=" then { fault := some (.malformed ("--" ++ body)) }
  else
    match flags.find? (·.name == name) with
    | none => { fault := some (.unknown name) }
    | some f =>
      if name != body then { uses := [(f, dropStart body (name ++ "="))] }
      else if f.kind == .switch then { uses := [(f, "true")] }
      else { waiting := some f }

/-- The letters of a word after its dash. -/
def shortFlags (flags : List Flag) (uses : List (Flag × String)) : List Char → FlagWord
  | [] => { uses := uses }
  | c :: cs =>
    match flags.find? (·.short == some c) with
    | none => { uses := uses, fault := some (.unknownShort c (String.ofList (c :: cs))) }
    | some f =>
      match cs with
      | '=' :: d :: value => { uses := uses ++ [(f, String.ofList (d :: value))] }
      | _ =>
        if f.kind == .switch then shortFlags flags (uses ++ [(f, "true")]) cs
        else if cs.isEmpty then { uses := uses, waiting := some f }
        else { uses := uses ++ [(f, String.ofList cs)] }

/-- Whether a word is no flag. A single dash is none. -/
def isOperand (word : String) : Bool := !startsWith word "-" || word == "-"

def flagWord (flags : List Flag) (word : String) : FlagWord :=
  if startsWith word "--" then longFlag flags (dropStart word "--")
  else shortFlags flags [] (word.toList.drop 1)

/-! ## Reading -/

/-- The flags and the other words of a command. -/
structure Parsed where
  given : Given := []
  operands : List String := []
  fault : Option FlagFault := none
deriving Repr, Inhabited

namespace Parsed

def give (p : Parsed) (use : Flag × String) : Parsed :=
  if p.fault.isSome then p
  else
    let (given, fault) := use.1.give p.given use.2
    { p with given := given, fault := fault }

end Parsed

/-- Read the words of a command, flags in any place. -/
def readFlags (flags : List Flag) (p : Parsed) : List String → Parsed
  | [] => p
  | word :: rest =>
    if isOperand word then readFlags flags { p with operands := p.operands ++ [word] } rest
    else if word == "--" then { p with operands := p.operands ++ rest }
    else
      let w := flagWord flags word
      let q := w.uses.foldl Parsed.give p
      if q.fault.isSome then q
      else
        match w.fault with
        | some e => { q with fault := some e }
        | none =>
          match w.waiting with
          | none => readFlags flags q rest
          | some f =>
            match rest with
            | [] => { q with fault := some (.noValue f.name) }
            | value :: rest =>
              let q := q.give (f, value)
              if q.fault.isSome then q else readFlags flags q rest

end Retarget
