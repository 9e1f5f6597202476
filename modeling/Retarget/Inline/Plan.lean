/-
# Inline.Plan -- vector code in place of calls

Operands that are single values are first spread over all lanes; then the template of the rule
is filled with the names of the operand vectors. A kernel that is one returned expression is
expanded with its parameters renamed to those vectors. The expansion shares part of the
kernel's own expression, which keeps the new names: a plan gives back the unit it leaves.
-/
import Retarget.Architecture
import Retarget.Inline.Calls
import Retarget.Inline.Candidate
import Retarget.Log
import Retarget.Loop.Profile
import Retarget.Source.Rename

namespace Retarget

open Retarget.Source (Node)
open Retarget.Text (contains)

/-- Why a call is not expanded. -/
inductive InlineError where
  | notInlinable (callee : String)
  | noTemplate (rule target : String)
  | noVectorType (callee target elem : String)
  | unfilled (callee : String) (cause : TemplateError)
deriving Repr, DecidableEq, Inhabited

def InlineError.message : InlineError → String
  | notInlinable callee => callee ++ ": call cannot be inlined"
  | noTemplate rule target =>
    "no inline template: rule " ++ rule ++ " has none for " ++ target
  | noVectorType callee target elem =>
    callee ++ ": no " ++ target ++ " vector type for " ++ elem
  | unfilled callee cause => callee ++ ": " ++ cause.message

/-- A call in a loop with what is known of its callee and the rule it matches. -/
structure InlineCall where
  site : LoopCall
  candidate : Option Candidate
  rule : Option Rule
deriving Inhabited

/-- The vector code of one call, or why there is none. -/
structure Inlined where
  context : InlineCall
  code : List String := []
  headers : List String := []
  error : Option InlineError := none
deriving Inhabited

/-- The unit as earlier expansions left it, and the kernels looked at so far. -/
structure Inliner where
  unit : SourceUnit
  rules : Database
  known : List Candidate := []
deriving Inhabited

namespace Inliner

variable (s : Inliner)

/-! ## Candidates and rules -/

/-- What is known of a kernel, found out once. -/
def candidate (k : KernelFn) : Inliner × Candidate :=
  match s.known.find? (·.kernel == k.id) with
  | some c => (s, c)
  | none =>
    let c := Candidate.ofKernel s.unit k
    ({ s with known := s.known ++ [c] }, c)

def candidates : Inliner × List Candidate :=
  (s.unit.kernels.filter (·.hasBody)).foldl (fun (s, cs) k =>
    let (s, c) := s.candidate k
    (s, cs ++ [c])) (s, [])

/-- Whether a kernel is a single returned expression. -/
def isSingle (c : Option Candidate) : Bool :=
  ((c.bind fun c => s.unit.kernel? c.kernel).bind (·.returned?)).isSome

def rule? (name : String) (args : Nat) (c : Option Candidate) : Option Rule :=
  s.rules.inlineRule? name args c (s.isSingle c)

def context (site : LoopCall) : Inliner × InlineCall :=
  let (s, c) := match s.unit.callee? site.call with
    | some k =>
      let (s, c) := s.candidate k
      (s, some c)
    | none => (s, none)
  (s, { site := site, candidate := c, rule := s.rule? site.callee site.args.length c })

/-- The calls in the loops of a kernel. -/
def contexts (k : KernelFn) : Inliner × List InlineCall :=
  (LoopCall.ofKernel s.unit k).foldl (fun (s, out) site =>
    let (s, c) := s.context site
    (s, out ++ [c])) (s, [])

/-! ## Operands -/

/-- The element type of an expansion: the result of the callee, else the type of the first
argument, else float. -/
def elementType (c : InlineCall) : String :=
  let result := (c.candidate.map (·.result)).getD ""
  if result != "" && result != "void" then result
  else
    let type := match s.unit.enclosing? c.site.call, c.site.args with
      | some k, arg :: _ => s.unit.typeOf k arg
      | _, _ => ""
    if type == "" then "float" else type

/-- The intrinsic operation a callee stands for. -/
def operationOf (callee : String) : String :=
  (["min", "max", "abs"].find? (contains callee)).getD callee

/-- The vector of an operand, and the line that spreads a single value over it. -/
def operand (prof : Profile) (callee : String) (arg : Node) (i : Nat) : String × List String :=
  let spread (name value : String) :=
    [prof.vecType ++ " " ++ name ++ "_vec = " ++ prof.dupFn ++ "(" ++ value ++ ");"]
  match arg.unparen with
  | .index .. | .call .. => (LoopCall.operandName arg, [])
  | .name _ text => (text, spread text text)
  | _ =>
    let name := callee ++ "_arg" ++ toString i
    (name, spread name (s.unit.print arg))

def operands (prof : Profile) (site : LoopCall) : List (String × List String) :=
  site.args.zipIdx.map fun (arg, i) => s.operand prof site.callee arg i

/-! ## Expansion -/

/-- The parameters of a kernel renamed to operand vectors. -/
def paramRenaming (k : KernelFn) (names : List String) : Node.Renaming :=
  (k.params.reverse.filterMap fun p => (names[p.index]?).map fun n => (p.name, n ++ "_vec"))

def withReturned (k : KernelFn) (x : Node) : KernelFn :=
  match k.body with
  | some (.block m [.ret rm [_]]) => { k with body := some (.block m [.ret rm [x]]) }
  | _ => k

theorem withReturned_id (k : KernelFn) (x : Node) : (withReturned k x).id = k.id := by
  unfold withReturned
  split <;> rfl

/-- Expand a kernel that is one returned expression: the text, and the unit it leaves. -/
def expand (c : Candidate) (names : List String) : Inliner × Option String :=
  match s.unit.kernel? c.kernel with
  | none => (s, none)
  | some k =>
    match k.returned? with
    | none => (s, none)
    | some x =>
      let r := paramRenaming k names
      let unit := s.unit.mapKernels
        (fun f => if f.id == k.id then withReturned f (x.afterExpansion r) else f) fun f => by
          split
          · exact withReturned_id f _
          · rfl
      ({ s with unit := unit }, some (s.unit.print (x.rename r)))

def baseBindings (target : Architecture) (prof : Profile) (site : LoopCall) (elem : String) :
    Bindings :=
  let typed (hole arch : String) :=
    ((Profile.find? arch elem).map fun p => (hole, p.vecType)).toList
  [("output", site.output), ("operation", operationOf site.callee), ("suffix", prof.suffix),
    ("element_type", prof.suffix), ("predicate", target.predicate)] ++
    typed "sve_type" "SVE" ++ typed "neon_type" "NEON"

/-- The operands by position, and by the roles of a clamp. -/
def operandBindings (names : List String) : Bindings :=
  (names.zipIdx.map fun (n, i) => (inputName i, n)) ++
    (names.head?.map fun n => ("input", n)).toList ++
    match names with
    | [_, lo, hi] => [("min_value", lo), ("max_value", hi)]
    | _ => []

/-- The vector code of one call. -/
def inline (target : Architecture) (c : InlineCall) : Inliner × Inlined :=
  match c.rule with
  | none => (s, { context := c, error := some (.notInlinable c.site.callee) })
  | some rule =>
    match rule.template? target.name with
    | none => (s, { context := c, error := some (.noTemplate rule.id target.name) })
    | some template =>
      let elem := s.elementType c
      match Profile.find? target.name elem with
      | none =>
        (s, { context := c, error := some (.noVectorType c.site.callee target.name elem) })
      | some prof =>
        let ops := s.operands prof c.site
        let names := ops.map (·.1)
        let (s, body) := match c.candidate with
          | some k => if rule.pattern.operations.isEmpty then s.expand k names else (s, none)
          | none => (s, none)
        let bindings := baseBindings target prof c.site elem ++ operandBindings names ++
          (body.map fun b => ("inlined_body", b)).toList
        match template.render bindings with
        | (_, some e) => (s, { context := c, error := some (.unfilled c.site.callee e) })
        | (text, none) =>
          (s, { context := c, code := ops.flatMap (·.2) ++ Text.splitAt '\n' text
                headers := template.headers })

/-- The code of every call in the loops of a kernel, in order. -/
def plan (target : Architecture) (k : KernelFn) : Logged (Inliner × List Inlined) :=
  if !k.hasBody then ⟨(s, []), [.debug ("inlining: " ++ k.name ++ " has no body")]⟩
  else
    let (s, calls) := s.contexts k
    pure (calls.foldl (fun (s, out) c =>
      let (s, i) := s.inline target c
      (s, out ++ [i])) (s, []))

end Inliner

end Retarget
