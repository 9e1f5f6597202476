/-
# Flow.Build -- the flow graph of a kernel

Statements are threaded into blocks one after the other; control statements open new blocks
and join them again. A jump to a label that is never placed, or out of no loop, leads to a block
of its own. In the end the blocks that cannot be reached are dropped, the others are numbered
anew, and every block that leaves the kernel flows into the exit.
-/
import Retarget.Flow.Graph
import Retarget.Kernel.Unit
import Retarget.Reach

namespace Retarget

open Retarget.Source (Node NodeId BranchKind)

/-- A block under construction; `owner` is the statement it was made for. -/
structure DraftBlock where
  kind : BlockKind
  owner : Option NodeId
  nodes : List NodeId := []
  succs : List Nat := []
deriving Inhabited

/-- The blocks that jumps to a label lead to. -/
structure DraftLabel where
  name : String
  place : Nat
  exit : Option Nat := none
  next : Option Nat := none
deriving Inhabited

/-- Where plain jumps lead inside a loop or a clause. -/
structure JumpTargets where
  exit : Option Nat := none
  next : Option Nat := none
  fall : Option Nat := none
deriving Inhabited

structure FlowDraft where
  blocks : List DraftBlock := []
  current : Nat := 0
  labels : List DraftLabel := []
deriving Inhabited

abbrev Drafting := StateM FlowDraft

namespace Drafting

def newBlock (kind : BlockKind) (owner : Option NodeId) : Drafting Nat := do
  let d ← get
  let fresh : DraftBlock := { kind := kind, owner := owner }
  set { d with blocks := d.blocks ++ [fresh] }
  return d.blocks.length

def modifyCurrent (f : DraftBlock → DraftBlock) : Drafting Unit :=
  modify fun d => { d with blocks := d.blocks.modify d.current f }

def add (n : NodeId) : Drafting Unit := modifyCurrent fun b => { b with nodes := b.nodes ++ [n] }

def jump (target : Nat) : Drafting Unit :=
  modifyCurrent fun b => { b with succs := b.succs ++ [target] }

def goOn (block : Nat) : Drafting Unit := modify fun d => { d with current := block }

/-- Control does not continue here. -/
def cutOff (owner : NodeId) : Drafting Unit := do goOn (← newBlock .unreachable (some owner))

/-- The label's entry, made at its first mention. -/
def labelNamed (name : String) : Drafting DraftLabel := do
  match (← get).labels.find? (·.name == name) with
  | some l => return l
  | none =>
    let l : DraftLabel := { name := name, place := ← newBlock .label none }
    modify fun d => { d with labels := d.labels ++ [l] }
    return l

/-- The block of a label belongs to the first statement the label stands before. -/
def placeLabel (l : DraftLabel) (owner : NodeId) : Drafting Unit := do
  jump l.place
  goOn l.place
  modifyCurrent fun b => { b with owner := b.owner.or (some owner) }

/-- Let jumps to the label leave or repeat the statement it stands before. -/
def aim (label : Option String) (exit : Nat) (next : Option Nat) : Drafting Unit :=
  match label with
  | none => return
  | some name => modify fun d =>
    let labels := d.labels.map fun l =>
      if l.name == name then { l with exit := some exit, next := next.or l.next } else l
    { d with labels := labels }

/-- The target of a jump, from its label or from the innermost statement that offers one. -/
def jumpTarget (targets : List JumpTargets) (kind : BranchKind) (label : Option String) :
    Drafting (Option Nat) := do
  match kind, label with
  | .exit, some name => return (← labelNamed name).exit
  | .next, some name => return (← labelNamed name).next
  | .jump, some name => return some (← labelNamed name).place
  | .exit, none => return targets.findSome? (·.exit)
  | .next, none => return targets.findSome? (·.next)
  | .fall, _ => return targets.findSome? (·.fall)
  | .jump, none => return none

def branch (targets : List JumpTargets) (id : NodeId) (kind : BranchKind) (label : Option Node) :
    Drafting Unit := do
  let target ← match ← jumpTarget targets kind (label.bind Node.name?) with
    | some t => pure t
    | none => newBlock .unreachable (some id)
  jump target
  cutOff id

/-- Calls that never return end the block they stand in. -/
def neverReturns (definesPanic : Bool) : Node → Bool
  | .call _ callee _ _ => Kernel.nameOfCallee callee == "panic" && !definesPanic
  | _ => false

/-- Declared variables and constants are nodes of their own; types leave no trace. -/
def specNode? : Node → Option NodeId
  | n@(.valueSpec ..) => some n.id
  | _ => none

/-- The blocks of the clauses of a switch: the one to run, and the one to fall into. -/
def clauseBlock (reserved : Option Nat) (clause : Node) (following : Option Node) (done : Nat) :
    Drafting (Nat × Nat) := do
  let body ← match reserved with
    | some b => pure b
    | none => newBlock .switchCaseBody (some clause.id)
  let after ← match following with
    | some c => newBlock .switchCaseBody (some c.id)
    | none => pure done
  return (body, after)

/-- Test the values of a clause one after the other. -/
def caseTests (clause : NodeId) (body : Nat) : List Node → Drafting Unit
  | [] => return
  | v :: rest => do
    let next ← newBlock .switchNextCase (some clause)
    add v.id
    jump body
    jump next
    goOn next
    caseTests clause body rest

mutual

/-- Thread one statement; `label` is the label placed right before it. -/
def stmt (panics : Bool) (targets : List JumpTargets) (label : Option String) (n : Node) :
    Drafting Unit :=
  match n with
  | .block _ stmts => stmtAll panics targets stmts
  | .exprStmt _ x => do
    add n.id
    if neverReturns panics x then cutOff n.id
  | .declStmt _ (.decl _ kind specs) => do
    if kind != .type then (specs.filterMap specNode?).forM add
  | .labeled _ l s => do
    let name := l.name?.getD ""
    placeLabel (← labelNamed name) n.id
    stmt panics targets (some name) s
  | .ret _ _ => do
    add n.id
    cutOff n.id
  | .branch m kind l => branch targets m.id kind l
  | .ifStmt m init cond body orElse => do
    stmtOpt panics targets init
    let then_ ← newBlock .ifThen (some m.id)
    let done ← newBlock .ifDone (some m.id)
    let else_ ← if orElse.isSome then newBlock .ifElse (some m.id) else pure done
    add cond.id
    jump then_
    jump else_
    goOn then_
    stmt panics targets none body
    jump done
    if orElse.isSome then
      goOn else_
      stmtOpt panics targets orElse
      jump done
    goOn done
  | .forStmt m init cond post body => do
    stmtOpt panics targets init
    let inside ← newBlock .forBody (some m.id)
    let done ← newBlock .forDone (some m.id)
    let test ← if cond.isSome then newBlock .forLoop (some m.id) else pure inside
    let again ← if post.isSome then newBlock .forPost (some m.id) else pure test
    aim label done (some again)
    jump test
    goOn test
    match cond with
    | some c =>
      add c.id
      jump inside
      jump done
      goOn inside
    | none => pure ()
    stmt panics ({ exit := some done, next := some again } :: targets) none body
    jump again
    if post.isSome then
      goOn again
      stmtOpt panics targets post
      jump test
    goOn done
  | .rangeStmt m _ _ _ body => do
    let test ← newBlock .rangeLoop (some m.id)
    jump test
    goOn test
    let inside ← newBlock .rangeBody (some m.id)
    let done ← newBlock .rangeDone (some m.id)
    add m.id
    jump inside
    jump done
    aim label done (some test)
    goOn inside
    stmt panics ({ exit := some done, next := some test } :: targets) none body
    jump test
    goOn done
  | .switchStmt m init tag body => do
    stmtOpt panics targets init
    if let some t := tag then add t.id
    let done ← newBlock .switchDone (some m.id)
    aim label done none
    clauses panics targets done body
    jump done
    goOn done
  | _ => add n.id

def stmtAll (panics : Bool) (targets : List JumpTargets) : List Node → Drafting Unit
  | [] => return
  | s :: rest => do
    stmt panics targets none s
    stmtAll panics targets rest

def stmtOpt (panics : Bool) (targets : List JumpTargets) : Option Node → Drafting Unit
  | none => return
  | some s => stmt panics targets none s

def clauses (panics : Bool) (targets : List JumpTargets) (done : Nat) : Node → Drafting Unit
  | .block _ list => do
    match ← clauseAll panics targets done none list with
    | some last => last
    | none => return
  | _ => return

/-- Thread the clauses in order and return the default clause, which is threaded after them; of
several the last one counts. -/
def clauseAll (panics : Bool) (targets : List JumpTargets) (done : Nat) (reserved : Option Nat) :
    List Node → Drafting (Option (Drafting Unit))
  | [] => return none
  | .caseClause m values stmts :: rest => do
    let (body, after) ← clauseBlock reserved (.caseClause m values stmts) rest.head? done
    let inner := stmtAll panics ({ exit := some done, fall := some after } :: targets) stmts
    if values.isEmpty then
      let later ← clauseAll panics targets done (some after) rest
      let here : Drafting Unit := do
        jump body
        goOn body
        inner
      return later.or (some here)
    else
      caseTests m.id body values
      let next := (← get).current
      goOn body
      inner
      jump done
      goOn next
      clauseAll panics targets done (some after) rest
  | _ :: rest => clauseAll panics targets done reserved rest

end

end Drafting

/-- The label of every edge of a block: two successors are the taken and the skipped one. -/
def labelSuccs (succs : List Nat) : List (Nat × BranchLabel) :=
  match succs with
  | [t, f] => [(t, .taken), (f, .skipped)]
  | _ => succs.map fun s => (s, .always)

/-- The statement that a block with two successors decides for. -/
def branchOwner (d : FlowDraft) (b : DraftBlock) : Option NodeId :=
  if b.kind == .rangeLoop then b.owner
  else (b.succs.head?.bind fun s => d.blocks[s]?).bind (·.owner)

/-- Number the live blocks densely and add the exit. -/
def FlowDraft.finish (d : FlowDraft) (live : List Nat) : FlowGraph :=
  let index := fun i => (live.idxOf? i).getD 0
  let inner := live.filterMap fun i => d.blocks[i]? |>.map fun b =>
    let succs := if b.succs.isEmpty then [(live.length, BranchLabel.always)]
      else labelSuccs (b.succs.map index)
    let branches := succs.length == 2 && !b.nodes.isEmpty
    { kind := b.kind, nodes := b.nodes, succs := succs,
      branch := if branches then branchOwner d b else none : Block }
  ⟨inner ++ [⟨.exit, [], [], none⟩]⟩

def FlowDraft.succs (d : FlowDraft) (i : Nat) : List Nat := ((d.blocks[i]?).map (·.succs)).getD []

/-- The flow graph of a body whose implied return is `fallOff`. -/
def flowGraphOf (definesPanic : Bool) (body : Node) (fallOff : NodeId) : FlowGraph :=
  let draft := (do
    let _ ← Drafting.newBlock .body none
    Drafting.stmt definesPanic [] none body : Drafting Unit).run {} |>.2
  let met := explore draft.succs draft.blocks.length [0]
  let live := (List.range draft.blocks.length).filter met.contains
  let closed := if live.contains draft.current then ((Drafting.add fallOff).run draft).2 else draft
  closed.finish live

/-- The flow graph of a kernel; an external one has none. -/
def SourceUnit.flowGraph? (u : SourceUnit) (k : KernelFn) : Option FlowGraph :=
  k.body.map fun b => flowGraphOf (u.named? "panic").isSome b k.fallOff.id

end Retarget
