/-
# Text.Fold -- comparison without regard to case

Simple case folding maps a character to one representative of its case class. The names that
are looked up are ASCII, so the classes that matter are those of the ASCII letters; two of
them reach beyond ASCII: the long s belongs to s and the Kelvin sign to k.
-/

namespace Retarget.Text

def foldChar (c : Char) : Char :=
  if c.toNat == 0x17f then 's'
  else if c.toNat == 0x212a then 'k'
  else c.toLower

def equalFold (a b : String) : Bool :=
  a.toList.map foldChar == b.toList.map foldChar

end Retarget.Text
