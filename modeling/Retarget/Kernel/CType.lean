/-
# Kernel.CType -- types as C spells them

Kernels use C type names directly; the built-in names of the source language have a C spelling
of their own. Pointers and arrays both become pointers.
-/
import Retarget.Source.PlainText

namespace Retarget.Kernel

open Retarget.Source (Node)
open Retarget.Text (trim startsWith endsWith dropStart dropEnd)

/-- Built-in type names and their C spelling. Names that C shares pass through unchanged. -/
def builtinTypes : List (String × String) := [
  ("int64", "long"), ("int32", "int"), ("int16", "short"), ("int8", "int8_t"),
  ("uint64", "uint64_t"), ("uint32", "uint32_t"), ("uint16", "uint16_t"), ("uint8", "uint8_t"),
  ("byte", "uint8_t"), ("rune", "int32_t"), ("float32", "float"), ("float64", "double"),
  ("uintptr", "uintptr_t")]

def cScalarTypes : List String :=
  ["void", "bool", "char", "short", "int", "long", "unsigned", "signed", "float", "double",
    "half", "_Float16", "__bf16"]

def floatTypes : List String :=
  ["float", "double", "float32", "float64", "float32_t", "float64_t", "float16_t", "_Float16",
    "half", "__bf16"]

def cType : Node → String
  | .name _ text => (builtinTypes.lookup text).getD text
  | .deref _ x => cType x ++ " *"
  | .arrayType _ _ elem => cType elem ++ " *"
  | .paren _ x => cType x
  | t => t.plain

def isPointer (ctype : String) : Bool := endsWith (trim ctype) "*"

/-- The type pointed to; nothing for a type that is no pointer. -/
def pointee (ctype : String) : String :=
  if isPointer ctype then trim (dropEnd (trim ctype) "*") else ""

/-- Scalar floating-point types, after the qualifiers. -/
def isFloatType (ctype : String) : Bool :=
  let t := trim (dropStart ctype "const ")
  floatTypes.contains (trim (dropStart t "volatile "))

/-- A declaration of a variable: a pointer type is followed by the name at once. -/
def declare (ctype name : String) : String :=
  if endsWith ctype "*" then ctype ++ name else ctype ++ " " ++ name

end Retarget.Kernel
