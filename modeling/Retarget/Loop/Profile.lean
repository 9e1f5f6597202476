/-
# Loop.Profile -- intrinsics for vector loops

A profile names the C intrinsics of one target for one element type. A predicated target
passes its predicate as the first argument of every intrinsic.
-/

namespace Retarget

/-- Arithmetic that vectors have. -/
inductive VecOp where
  | add | sub | mul | div
deriving DecidableEq, Repr, Inhabited

def VecOp.symbol : VecOp → String
  | add => "+"
  | sub => "-"
  | mul => "*"
  | div => "/"

structure Profile where
  target : String
  elemType : String
  /-- The suffix of intrinsics for the element type. -/
  suffix : String
  header : String
  vecType : String
  /-- The number of lanes, as a C expression. -/
  lanes : String
  /-- The predicate of all lanes; empty on targets without predicates. -/
  predicate : String := ""
  /-- The predicate of the lanes below a bound. -/
  tailPredicate : String := ""
  loadFn : String
  storeFn : String
  dupFn : String
  addFn : String
  subFn : String
  mulFn : String
  /-- Empty where vectors cannot be divided. -/
  divFn : String := ""
  /-- Horizontal addition; empty where the vector has to be stored first. -/
  reduceFn : String := ""
  /-- The cast before load and store addresses. -/
  ptrCast : String := ""
deriving Repr, DecidableEq, Inhabited

namespace Profile

def isPredicated (p : Profile) : Bool := p.predicate != ""

def arithmeticFn (p : Profile) : VecOp → String
  | .add => p.addFn
  | .sub => p.subFn
  | .mul => p.mulFn
  | .div => p.divFn

/-- An element type: its C name, its suffix, its name in vector types, and its width. -/
structure Elem where
  ctype : String
  suffix : String
  name : String
  bits : Nat
deriving Repr, DecidableEq, Inhabited

def elems : List Elem :=
  [⟨"float", "f32", "float32", 32⟩, ⟨"double", "f64", "float64", 64⟩, ⟨"int", "s32", "int32", 32⟩]

def Elem.isFloat (e : Elem) : Bool := e.suffix != "s32"

def sve (e : Elem) : Profile where
  target := "SVE"
  elemType := e.ctype
  suffix := e.suffix
  header := "<arm_sve.h>"
  vecType := "sv" ++ e.name ++ "_t"
  lanes := "svcnt" ++ (if e.bits == 64 then "d" else "w") ++ "()"
  predicate := "svptrue_b" ++ toString e.bits ++ "()"
  tailPredicate := "svwhilelt_b" ++ toString e.bits
  loadFn := "svld1_" ++ e.suffix
  storeFn := "svst1_" ++ e.suffix
  dupFn := "svdup_n_" ++ e.suffix
  addFn := "svadd_" ++ e.suffix ++ "_m"
  subFn := "svsub_" ++ e.suffix ++ "_m"
  mulFn := "svmul_" ++ e.suffix ++ "_m"
  divFn := "svdiv_" ++ e.suffix ++ "_m"
  reduceFn := "svaddv_" ++ e.suffix

def neon (e : Elem) : Profile where
  target := "NEON"
  elemType := e.ctype
  suffix := e.suffix
  header := "<arm_neon.h>"
  vecType := e.name ++ "x" ++ toString (128 / e.bits) ++ "_t"
  lanes := toString (128 / e.bits)
  loadFn := "vld1q_" ++ e.suffix
  storeFn := "vst1q_" ++ e.suffix
  dupFn := "vdupq_n_" ++ e.suffix
  addFn := "vaddq_" ++ e.suffix
  subFn := "vsubq_" ++ e.suffix
  mulFn := "vmulq_" ++ e.suffix
  divFn := if e.isFloat then "vdivq_" ++ e.suffix else ""
  reduceFn := "vaddvq_" ++ e.suffix

/-- The suffix of float intrinsics by width. -/
def packed (e : Elem) : String := if e.bits == 64 then "pd" else "ps"

def avx2 (e : Elem) : Profile :=
  if e.isFloat then
    { target := "AVX2", elemType := e.ctype, suffix := e.suffix, header := "<immintrin.h>"
      vecType := if e.bits == 64 then "__m256d" else "__m256"
      lanes := toString (256 / e.bits)
      loadFn := "_mm256_loadu_" ++ packed e
      storeFn := "_mm256_storeu_" ++ packed e
      dupFn := "_mm256_set1_" ++ packed e
      addFn := "_mm256_add_" ++ packed e
      subFn := "_mm256_sub_" ++ packed e
      mulFn := "_mm256_mul_" ++ packed e
      divFn := "_mm256_div_" ++ packed e }
  else
    { target := "AVX2", elemType := e.ctype, suffix := e.suffix, header := "<immintrin.h>"
      vecType := "__m256i"
      lanes := toString (256 / e.bits)
      loadFn := "_mm256_loadu_si256"
      storeFn := "_mm256_storeu_si256"
      dupFn := "_mm256_set1_epi32"
      addFn := "_mm256_add_epi32"
      subFn := "_mm256_sub_epi32"
      mulFn := "_mm256_mullo_epi32"
      ptrCast := "(__m256i*)" }

def all : List Profile := elems.flatMap fun e => [sve e, neon e, avx2 e]

/-- Another spelling of an element type. -/
def canonicalElem (elem : String) : String := if elem == "int32_t" then "int" else elem

/-- The profile for a target and a C element type. -/
def find? (target elem : String) : Option Profile :=
  all.find? fun p => p.target == target && p.elemType == canonicalElem elem

end Profile

end Retarget
