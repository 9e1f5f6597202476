/-
# Analysis.Footprint -- the memory of local variables

Sizes are those of C types on a 64-bit machine. A vector of scalable length counts at its
shortest, 128 bits; a type that is not known counts as int.
-/
import Retarget.Kernel.Unit
import Retarget.Tally

namespace Retarget

open Retarget.Source (Node)
open Retarget.Text (trim dropStart startsWith endsWith contains addNew)

namespace Kernel

def eightByteTypes : List String := ["double", "long", "int64_t", "uint64_t", "size_t", "ssize_t"]
def twoByteTypes : List String := ["short", "int16_t", "uint16_t"]
def oneByteTypes : List String := ["char", "int8_t", "uint8_t", "bool"]

/-- The size in bytes of a C type. -/
def typeSize (ctype : String) : Nat :=
  let t := trim (dropStart ctype "const ")
  if endsWith t "*" then 8
  else if startsWith t "__m512" then 64
  else if startsWith t "__m256" then 32
  else if startsWith t "__m128" then 16
  else if t == "svbool_t" then 2
  else if startsWith t "sv" then 16
  else if contains t "x" && endsWith t "_t" then 16
  else if eightByteTypes.contains t then 8
  else if twoByteTypes.contains t then 2
  else if oneByteTypes.contains t then 1
  else 4

end Kernel

namespace KernelFn

/-- The names a node declares. -/
def declaredBy : Node → List String
  | .valueSpec _ _ names _ _ => names.filterMap (·.name?)
  | .assign _ .define targets _ => targets.filterMap (·.name?)
  | _ => []

/-- The local variables, each once, in the order of their first declaration. -/
def locals (k : KernelFn) : List String :=
  let nodes := (k.body.map Node.preorder).getD []
  (addNew [] (nodes.flatMap declaredBy)).filter (· != "_")

/-- The bytes of the local variables. -/
def footprint (k : KernelFn) : Nat :=
  total (k.locals.map fun v => Kernel.typeSize (k.declaredType v))

end KernelFn

end Retarget
