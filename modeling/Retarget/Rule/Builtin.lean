/-
# Rule.Builtin -- the catalogs that come with the library

Two catalogs: calls that become a single vector operation, and the instructions of the source
set with their counterparts. In both, `input` names an operand; on predicated targets the
governing predicate comes first.
-/
import Retarget.Rule.Catalog

namespace Retarget.Builtin

open Retarget.Text (join)

/-! ## Code with holes -/

def hole (name : String) : String := Template.openMark ++ name ++ Template.closeMark

def input (i : Nat) : String := hole (inputName i)

def predicate : String := hole "predicate"

/-- A call in C. -/
def call (function : String) (args : List String) : String :=
  function ++ "(" ++ join ", " args ++ ")"

def sve (code : String) (hints : List (String × String)) : String × Template :=
  ("SVE", { code := code, headers := ["<arm_sve.h>"], hints := hints })

def neon (code : String) (hints : List (String × String)) : String × Template :=
  ("NEON", { code := code, headers := ["<arm_neon.h>"], hints := hints })

def returns (type : String) : List (String × String) := [("return_type", type)]

/-! ## Inlined calls -/

/-- The declaration of a vector that takes a value on either target. -/
def declares (typeHole suffix value : String) : String :=
  hole typeHole ++ " " ++ hole "output" ++ suffix ++ " = " ++ value ++ ";"

def vec (operand : String) : String := operand ++ "_vec"

def sveResult (value : String) : String := declares "sve_type" "_vec" value
def neonResult (value : String) : String := declares "neon_type" "_vec" value

/-- A function name of the instruction set with its element suffix. -/
def suffixed (function : String) : String := function ++ "_" ++ hole "suffix"

def inlineCatalog : Catalog where
  category := Database.inlineCategory
  rules := [
    { id := "minmax_function_inline"
      name := "Min/max inlining"
      priority := 5
      pattern := {
        id := "minmax_call"
        description := "Call to a two-operand min or max"
        operations := ["min", "max", "fmin", "fmax", "minf", "maxf"]
        nodeTypes := ["CallExpr"]
        constraints := [("num_params", "2"), ("is_pure", "true")] }
      templates := [
        sve (sveResult (call (suffixed ("sv" ++ hole "operation") ++ "_z")
          [predicate, vec (input 0), vec (input 1)])) [],
        neon (neonResult (call (suffixed ("v" ++ hole "operation" ++ "q"))
          [vec (input 0), vec (input 1)])) []] },
    { id := "clamp_function_inline"
      name := "Clamp inlining"
      priority := 5
      pattern := {
        id := "clamp_call"
        description := "Call to clamp, clip or saturate"
        operations := ["clamp", "clip", "saturate", "clampf"]
        nodeTypes := ["CallExpr"]
        constraints := [("num_params", "3")] }
      templates := [
        sve (declares "sve_type" "_tmp" (call (suffixed "svmax" ++ "_z")
            [predicate, vec (hole "input"), vec (hole "min_value")]) ++ "\n" ++
          sveResult (call (suffixed "svmin" ++ "_z")
            [predicate, hole "output" ++ "_tmp", vec (hole "max_value")])) [],
        neon (declares "neon_type" "_tmp" (call (suffixed "vmaxq")
            [vec (hole "input"), vec (hole "min_value")]) ++ "\n" ++
          neonResult (call (suffixed "vminq")
            [hole "output" ++ "_tmp", vec (hole "max_value")])) []] },
    { id := "abs_function_inline"
      name := "Absolute value inlining"
      priority := 5
      pattern := {
        id := "abs_call"
        description := "Call to abs, fabs or absolute"
        operations := ["abs", "fabs", "absolute", "absf"]
        constraints := [("num_params", "1")] }
      templates := [
        sve (sveResult (call (suffixed "svabs" ++ "_z") [predicate, vec (input 0)])) [],
        neon (neonResult (call (suffixed "vabsq") [vec (input 0)])) []] },
    { id := "saturate_add_inline"
      name := "Saturating add inlining"
      priority := 5
      pattern := {
        id := "saturate_add_call"
        description := "Call to a saturating add"
        operations := ["saturate_add", "qadd", "sat_add"]
        constraints := [("num_params", "2")] }
      templates := [
        sve (sveResult (call (suffixed "svqadd") [vec (input 0), vec (input 1)])) [],
        neon (neonResult (call (suffixed "vqaddq") [vec (input 0), vec (input 1)])) []] },
    { id := "simple_arithmetic_inline"
      name := "Single-expression function inlining"
      pattern := {
        id := "arithmetic_function"
        description := "Pure function whose body is one return of arithmetic"
        nodeTypes := ["FuncDecl", "BinaryExpr"]
        constraints := [("has_return", "true"), ("num_statements", "1"), ("is_pure", "true")] }
      templates := [
        sve (sveResult (hole "inlined_body")) [],
        neon (neonResult (hole "inlined_body")) []] }]

/-! ## Instructions -/

/-- A byte instruction and its counterparts. -/
def byteRule (id name : String) (operations : List String) (sveCode sveType neonCode neonType : String) :
    Rule where
  id := id
  name := name
  priority := 10
  pattern := { operations := operations }
  templates := [sve sveCode (returns sveType), neon neonCode (returns neonType)]

/-- A scalar operation on floats with a counterpart where loops are vectorised. -/
def floatRule (id name operation : String) (nodeTypes : List String) (code type : String) :
    Rule where
  id := id
  name := name
  pattern := { operations := [operation], nodeTypes := nodeTypes }
  templates := [neon code (returns type)]

def vectorCatalog : Catalog where
  category := Database.vectorCategory
  rules := [
    byteRule "avx2_set1_epi8" "Broadcast byte" ["_mm256_set1_epi8"]
      (call "svdup_s8" [input 0]) "svint8_t" (call "vdupq_n_s8" [input 0]) "int8x16_t",
    byteRule "avx2_loadu_si256" "Unaligned vector load" ["_mm256_loadu_si256", "_mm256_load_si256"]
      (call "svld1_s8" [predicate, "(const int8_t*)" ++ input 0]) "svint8_t"
      (call "vld1q_s8" ["(const int8_t*)" ++ input 0]) "int8x16_t",
    byteRule "avx2_storeu_si256" "Unaligned vector store"
      ["_mm256_storeu_si256", "_mm256_store_si256"]
      (call "svst1_s8" [predicate, "(int8_t*)" ++ input 0, input 1]) "void"
      (call "vst1q_s8" ["(int8_t*)" ++ input 0, input 1]) "void",
    byteRule "avx2_cmpgt_epi8" "Signed byte compare" ["_mm256_cmpgt_epi8"]
      (call "svcmpgt_s8" [predicate, input 0, input 1]) "svbool_t"
      (call "vreinterpretq_s8_u8" [call "vcgtq_s8" [input 0, input 1]]) "int8x16_t",
    byteRule "avx2_and_si256" "Bitwise and" ["_mm256_and_si256"]
      (call "svand_s8_z" [predicate, input 0, input 1]) "svint8_t"
      (call "vandq_s8" [input 0, input 1]) "int8x16_t",
    byteRule "avx2_add_epi8" "Byte add" ["_mm256_add_epi8"]
      (call "svadd_s8_z" [predicate, input 0, input 1]) "svint8_t"
      (call "vaddq_s8" [input 0, input 1]) "int8x16_t",
    byteRule "avx2_sub_epi8" "Byte subtract" ["_mm256_sub_epi8"]
      (call "svsub_s8_z" [predicate, input 0, input 1]) "svint8_t"
      (call "vsubq_s8" [input 0, input 1]) "int8x16_t",
    floatRule "scalar_add_float" "Float add" "+" ["GenericStmt"]
      (call "vaddq_f32" [input 0, input 1]) "float32x4_t",
    floatRule "scalar_sub_float" "Float subtract" "-" ["GenericStmt"]
      (call "vsubq_f32" [input 0, input 1]) "float32x4_t",
    floatRule "scalar_mul_float" "Float multiply" "*" ["GenericStmt"]
      (call "vmulq_f32" [input 0, input 1]) "float32x4_t",
    floatRule "scalar_load_float" "Float vector load" "load_float" []
      (call "vld1q_f32" ["(const float*)" ++ input 0]) "float32x4_t",
    floatRule "scalar_store_float" "Float vector store" "store_float" []
      (call "vst1q_f32" ["(float*)" ++ input 0, input 1]) "void"]

/-- The built-in catalogs by the name of the source they are registered under. -/
def catalogs : List (String × Catalog) :=
  [("function_inline.yaml", inlineCatalog), ("simd_instruction.yaml", vectorCatalog)]

/-- A database that holds the built-in rules. -/
def database : Logged Database :=
  catalogs.foldlM (fun db (source, c) => (·.database) <$> db.loadCatalog source c) {}

end Retarget.Builtin
