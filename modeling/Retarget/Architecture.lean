/-
# Architecture -- the instruction sets code is written for

A target fixes the headers a generated file includes, the spelling of its vector types, and
which source types and casts have to be replaced. Targets are found by name, ignoring case.
-/
import Retarget.Text.Basic
import Retarget.Text.Fold
import Retarget.Text.Quoted

namespace Retarget

open Retarget.Text (contains replaceAll quoted equalFold)

structure Architecture where
  name : String
  headers : List String := []
  /-- The governing predicate of a predicated target; empty elsewhere. -/
  predicate : String := ""
  /-- The lines that declare the predicate. -/
  prologue : List String := []
  /-- The vector type of 8-bit integers. -/
  byteVector : String := ""
  /-- The vector type of 32-bit floats. -/
  floatVector : String := ""
  /-- The number of 32-bit lanes, as a C expression. -/
  lanes32 : String
  /-- Parameter types replaced in signatures. -/
  paramTypes : List (String × String) := []
  /-- Pointer casts replaced inside expressions. -/
  casts : List (String × String) := []
  /-- Type spellings that do not exist on the target. -/
  sourceVectorTypes : List String := []
  /-- Whether scalar loops are marked for vectorisation. -/
  autoVectorize : Bool := false
deriving Repr, DecidableEq, Inhabited

namespace Architecture

def sve : Architecture where
  name := "SVE"
  headers := ["<arm_sve.h>"]
  predicate := "pg"
  prologue := ["svbool_t pg = svptrue_b8();"]
  byteVector := "svint8_t"
  floatVector := "svfloat32_t"
  lanes32 := "svcntw()"
  paramTypes := [("__m256i", "int8_t *")]
  casts := [("(__m256i *)", "(int8_t *)")]
  sourceVectorTypes := ["__m256i", "__m256", "__m128i", "__m128"]

def neon : Architecture where
  name := "NEON"
  headers := ["<arm_neon.h>"]
  byteVector := "int8x16_t"
  floatVector := "float32x4_t"
  lanes32 := "4"
  paramTypes := [("__m256i", "int8_t *")]
  casts := [("(__m256i *)", "(int8_t *)")]
  sourceVectorTypes := ["__m256i", "__m256", "__m128i", "__m128"]
  autoVectorize := true

def avx2 : Architecture where
  name := "AVX2"
  headers := ["<immintrin.h>"]
  byteVector := "__m256i"
  floatVector := "__m256"
  lanes32 := "8"

def scalar : Architecture where
  name := "Scalar"
  lanes32 := "1"

def all : List Architecture := [sve, neon, avx2, scalar]

/-- A name that belongs to no target. -/
structure Unknown where
  name : String
deriving Repr, DecidableEq, Inhabited

def Unknown.message (e : Unknown) : String := "unknown architecture: " ++ quoted e.name

def lookup (name : String) : Except Unknown Architecture :=
  match all.find? fun a => equalFold a.name name with
  | some a => .ok a
  | none => .error ⟨name⟩

variable (a : Architecture)

def isPredicated : Bool := a.predicate != ""

/-- Whether a declaration spelled with this type needs its type inferred. -/
def isSourceVectorType (ctype : String) : Bool := a.sourceVectorTypes.any (contains ctype)

/-- Spell the casts of a source text with the types of the target. -/
def replaceCasts (text : String) : String :=
  a.casts.foldl (fun text (old, new) => replaceAll old new text) text

end Architecture

end Retarget
