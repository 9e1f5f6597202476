/-
# Yaml.Basic -- documents as trees

A document is a tree of scalars, sequences and mappings. A scalar keeps its characters and how
they were written, because only a scalar that stands as it is may be a number or another value.
An alias keeps the name it was written with beside the node it stands for.
-/

namespace Retarget

/-- How a scalar was written, or is to be. -/
inductive Yaml.Form where
  /-- As it stands. -/
  | plain
  /-- Between quotes or as a block: the characters themselves. -/
  | text
  /-- With its type spelt out in front. -/
  | tagged (tag : String)
deriving Repr, DecidableEq, Inhabited

inductive Yaml where
  | scalar (text : String) (form : Yaml.Form)
  | sequence (items : List Yaml)
  | mapping (entries : List (Yaml × Yaml))
  /-- There is no target when the alias stands within the very node it names. -/
  | mention (name : String) (target : Option Yaml)
deriving Repr, Inhabited

namespace Yaml

/-- A node that was left out. -/
def absent : Yaml := .scalar "" .plain

/-- The node an alias stands for, or the node itself. -/
def resolved? : Yaml → Option Yaml
  | .mention _ target => target
  | n => some n

end Yaml

end Retarget
