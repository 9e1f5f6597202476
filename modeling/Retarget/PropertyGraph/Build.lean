/-
# PropertyGraph.Build -- building, linking and invalidating kernels

A kernel is built once: its nodes are wired along the flow graph, with empty blocks looked
through, and its calls are recorded. A recorded call is linked as soon as its callee is built.
Invalidating a kernel removes its nodes and those of every call into or out of it, and builds it
again.
-/
import Retarget.PropertyGraph.Basic
import Retarget.Log

namespace Retarget

open Retarget.Source (Node NodeId)

/-- Variables written and read, looked up in a table made once. -/
def Access.ofTable (rows : List (NodeId × Kernel.Scope.DefUse)) : Access where
  defs n := ((rows.lookup n).map (·.defs)).getD []
  uses n := ((rows.lookup n).map (·.uses)).getD []

namespace SourceUnit

variable (u : SourceUnit)

def defUseOf (n : NodeId) : Kernel.Scope.DefUse := ((u.node? n).map u.scope.defUse).getD {}

def callsOf (n : NodeId) : List Node := ((u.node? n).map u.scope.calls).getD []

/-- What the given nodes write and read. -/
def accessTo (stmts : List NodeId) : Access := Access.ofTable (stmts.map fun n => (n, u.defUseOf n))

def callArgs : Node → List NodeId
  | .call _ _ args _ => args.map Node.id
  | _ => []

end SourceUnit

namespace PropertyGraph

/-! ## Wiring one kernel -/

/-- The nodes of a kernel while it is built: slots by block, in order. -/
structure Wiring where
  entry : Slot
  exit : Slot
  /-- The slots of the nodes of each block. -/
  blocks : List (List Slot)

/-- The first slots that control meets on entering block `b`; empty blocks are looked through,
each once. The number of blocks bounds the depth. -/
def entriesOf (g : FlowGraph) (w : Wiring) : Nat → Nat → List Nat → List Slot × List Nat
  | 0, _, seen => ([], seen)
  | depth + 1, b, seen =>
    if b == g.exit then ([w.exit], seen)
    else match (w.blocks.getD b []).head? with
      | some s => ([s], seen)
      | none =>
        if seen.contains b then ([], seen)
        else (g.succs b).foldl (fun (out, seen) s =>
          let (more, seen) := entriesOf g w depth s seen
          (out ++ more, seen)) ([], b :: seen)

def entries (g : FlowGraph) (w : Wiring) (b : Nat) : List Slot := (entriesOf g w (g.size + 1) b []).1

/-- Edges between consecutive nodes. -/
def chainEdges : List Slot → List (Slot × Slot × EdgeKind)
  | a :: b :: rest => (a, b, .within) :: chainEdges (b :: rest)
  | _ => []

/-- Edges from the last node of a block to what its successors begin with. -/
def blockEdges (g : FlowGraph) (w : Wiring) (b : Nat) : List (Slot × Slot × EdgeKind) :=
  match (w.blocks.getD b []).getLast? with
  | none => []
  | some s => (g.labeledSuccs b).flatMap fun (t, label) =>
    (entries g w t).map fun e => (s, e, EdgeKind.ofLabel label)

/-- All edges of a kernel in the order they are made. -/
def kernelEdges (g : FlowGraph) (w : Wiring) : List (Slot × Slot × EdgeKind) :=
  w.blocks.flatMap chainEdges ++ (List.range g.size).flatMap (blockEdges g w) ++
    (entries g w g.entry).map fun e => (w.entry, e, .within)

/-- Number the nodes of the blocks from `first` on. -/
def numberBlocks (first : Slot) : List (List NodeId) → List (List Slot)
  | [] => []
  | nodes :: rest =>
    List.range' first nodes.length :: numberBlocks (first + nodes.length) rest

/-- Where the nodes of a kernel go when its slots begin at `first`. -/
def wiringOf (g : FlowGraph) (first : Slot) : Wiring where
  entry := first
  exit := first + 1
  blocks := numberBlocks (first + 2) (g.blocks.map (·.nodes))

/-! ## Aliases -/

/-- Add an alias unless the statement has one. -/
def addAlias (known : List (NodeId × NodeId)) (owner stmt : NodeId) : List (NodeId × NodeId) :=
  if (known.lookup owner).isSome then known else known ++ [(owner, stmt)]

/-- Branching statements are known by their first condition in block order. -/
def branchAliases (g : FlowGraph) (index : List (NodeId × Slot))
    (known : List (NodeId × NodeId)) : List (NodeId × NodeId) :=
  g.blocks.foldl (fun known b =>
    match b.terminator?, b.branch with
    | some cond, some owner =>
      if (index.lookup owner).isSome then known else addAlias known owner cond
    | _, _ => known) known

/-- A declaration is known by its first specification, an expression by its statement. -/
def stmtAliases (u : SourceUnit) (stmts : List NodeId) (known : List (NodeId × NodeId)) :
    List (NodeId × NodeId) :=
  stmts.foldl (fun known id =>
    match u.node? id with
    | some (.valueSpec ..) =>
      match u.declOf? id with
      | some d => addAlias known d.id id
      | none => known
    | some (.exprStmt _ x) => (known.filter (·.1 != x.id)) ++ [(x.id, id)]
    | _ => known) known

/-! ## Building -/

/-- The nodes of a kernel: its entry, its exit and one for every node of its flow graph, each of
these given with the calls in it. -/
def kernelNodes (k : KernelFn) (rows : List (NodeId × List Node)) : List GraphNode :=
  { kind := .entry, kernel := k.id } :: { kind := .exit, kernel := k.id } ::
    rows.map fun (n, calls) =>
      { kind := if calls.isEmpty then .statement else .callSite, kernel := k.id, stmt := some n,
        calls := calls.map Node.id }

def recordsOf (u : SourceUnit) (caller : KernelId) (site : Slot) (calls : List Node) :
    List CallRecord :=
  calls.map fun c =>
    { site := site, call := c.id, args := SourceUnit.callArgs c, caller := caller,
      target := (u.callee? c).map (·.id) }

/-- The statements of a flow graph with the calls in each. -/
def rowsOf (u : SourceUnit) (flow : FlowGraph) : List (NodeId × List Node) :=
  flow.statements.map fun n => (n, u.callsOf n)

/-- The graph with the nodes and edges of a kernel. -/
def wireKernel (g : PropertyGraph) (u : SourceUnit) (k : KernelFn) (flow : FlowGraph) :
    PropertyGraph :=
  (g.addNodes (kernelNodes k (rowsOf u flow))).addEdges
    (kernelEdges flow (wiringOf flow g.nodes.size))

/-- What the analyses of one kernel have to report. -/
def flowLog (k : KernelFn) (b : BuiltKernel) : List LogEntry :=
  let stopped := fun n => LogEntry.warn s!"{k.name}: dataflow stopped after {n} iterations"
  (if b.facts.converged then [] else [stopped b.facts.passes]) ++
    (if b.facts.usesConverged then [] else [stopped b.facts.usesPasses]) ++
    [LogEntry.debug s!"{k.name}: ICFG with {b.slots.length} nodes over {b.graph.size} blocks"]

/-- Add the nodes, edges, facts and calls of a kernel with a body. -/
def buildKernel (g : PropertyGraph) (u : SourceUnit) (k : KernelFn) : Logged PropertyGraph :=
  match u.flowGraph? k with
  | none => ⟨g, [.debug s!"{k.name}: no flow graph"]⟩
  | some flow =>
    let stmts := flow.statements
    let first := g.nodes.size
    let slots := List.range' first (stmts.length + 2)
    let wiring := wiringOf flow first
    let wired := g.wireKernel u k flow
    let index := wired.index ++ stmts.zip (slots.drop 2)
    let info : BuiltKernel :=
      { kernel := k.id, graph := flow, entry := wiring.entry, exit := wiring.exit
        slots := slots, stmts := stmts
        facts := analyzeFlow flow (u.accessTo stmts) (k.params.map (·.name)) g.cap }
    let records := ((slots.drop 2).zip (rowsOf u flow)).flatMap fun (s, _, calls) =>
      recordsOf u k.id s calls
    ⟨{ wired with
        built := wired.built ++ [info]
        index := index
        aliases := stmtAliases u stmts (branchAliases flow index wired.aliases)
        calls := wired.calls ++ records }, flowLog k info⟩

/-! ## Linking -/

/-- Nodes for one argument: what the caller passes and what the callee receives. -/
def linkArg (caller callee : KernelId) (site : Slot)
    (state : PropertyGraph × List Slot) (arg : NodeId × Nat) : PropertyGraph × List Slot :=
  let (g, created) := state
  let (n, i) := arg
  let (g, actual) := g.addNode { kind := .actualIn, kernel := caller, stmt := some n, param := some i }
  let (g, formal) := g.addNode { kind := .formalIn, kernel := callee, param := some i }
  ((g.addEdge site actual .paramIn).addEdge actual formal .paramIn, created ++ [actual, formal])

/-- Nodes for the result. -/
def linkResult (caller : KernelId) (callee : BuiltKernel) (call : NodeId) (returnSite : Slot)
    (state : PropertyGraph × List Slot) : PropertyGraph × List Slot :=
  let (g, created) := state
  let (g, formal) := g.addNode { kind := .formalOut, kernel := callee.kernel }
  let (g, actual) := g.addNode { kind := .actualOut, kernel := caller, stmt := some call }
  let g := ((g.addEdge callee.exit formal .paramOut).addEdge formal actual .paramOut).addEdge
    actual returnSite .paramOut
  (g, created ++ [formal, actual])

/-- Link one call to its built callee. The return site goes on where the call site goes on at
this moment, calls excepted. -/
def linkCall (g : PropertyGraph) (returns : Bool) (r : CallRecord) (callee : BuiltKernel) :
    PropertyGraph × CallRecord :=
  let after := ((g.node? r.site).map (·.succs)).getD []
  let (g, returnSite) :=
    g.addNode { kind := .returnSite, kernel := r.caller, stmt := some r.call }
  let g := (g.addEdge r.site callee.entry .call).addEdge callee.exit returnSite .ret
  let g := (after.filter (·.kind != .call)).foldl (fun g e => g.addEdge returnSite e.other e.kind) g
  let state := r.args.zipIdx.foldl (linkArg r.caller callee.kernel r.site) (g, [returnSite])
  let (g, created) :=
    if returns then linkResult r.caller callee r.call returnSite state else state
  (g.setTarget r.site (some callee.kernel),
    { r with linked := true, returnSite := some returnSite, created := created })

/-- Link every recorded call whose callee has been built, in the order of recording. -/
def linkCalls (g : PropertyGraph) (u : SourceUnit) : PropertyGraph :=
  let (g, calls) := g.calls.foldl (fun (g, done) r =>
    let callee := if r.linked then none else r.target.bind g.builtKernel?
    match callee with
    | none => (g, done ++ [r])
    | some c =>
      let returns := ((u.kernel? c.kernel).map (·.result != "void")).getD false
      let (g, r) := g.linkCall returns r c
      (g, done ++ [r])) (g, [])
  { g with calls := calls }

/-! ## The three operations -/

/-- Build a kernel unless it is built, and link whatever has become linkable. -/
def build (g : PropertyGraph) (u : SourceUnit) (k : KernelFn) : Logged PropertyGraph :=
  if !k.hasBody then ⟨g, [.debug s!"{k.name}: no body, not building ICFG"]⟩
  else if g.isBuilt k.id then ⟨g, []⟩
  else (g.buildKernel u k).map (·.linkCalls u)

/-- Build every kernel of the unit. -/
def buildUnit (g : PropertyGraph) (u : SourceUnit) : Logged PropertyGraph :=
  let start : Logged PropertyGraph := ⟨g, []⟩
  (u.kernels.foldl (fun acc k => acc.bind fun g => g.build u k) start).map (·.linkCalls u)

/-- Take a call apart when kernel `k` goes away; calls made by `k` itself are forgotten. -/
def unlinkCall (k : KernelId) (state : PropertyGraph × List CallRecord) (r : CallRecord) :
    PropertyGraph × List CallRecord :=
  let (g, kept) := state
  if r.caller == k then (g.removeNodes r.created, kept)
  else if r.target == some k && r.linked then
    ((g.removeNodes r.created).setTarget r.site none,
      kept ++ [{ r with linked := false, returnSite := none, created := [] }])
  else (g, kept ++ [r])

/-- Forget a built kernel: its calls, its nodes and every name for them. -/
def forget (g : PropertyGraph) (b : BuiltKernel) : PropertyGraph :=
  let (g, calls) := g.calls.foldl (unlinkCall b.kernel) (g, [])
  let g := g.removeNodes b.slots
  { g with
    calls := calls
    index := g.index.filter fun (n, _) => !b.stmts.contains n
    aliases := g.aliases.filter fun (_, n) => !b.stmts.contains n
    built := g.built.filter (·.kernel != b.kernel) }

/-- Discard a built kernel and build it again. -/
def invalidate (g : PropertyGraph) (u : SourceUnit) (k : KernelFn) : Logged PropertyGraph :=
  match g.builtKernel? k.id with
  | none => ⟨g, []⟩
  | some b => ((g.forget b).buildKernel u k).map (·.linkCalls u)

end PropertyGraph

end Retarget
