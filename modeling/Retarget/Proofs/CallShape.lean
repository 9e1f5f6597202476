/-
# Proofs.CallShape -- what linking one call adds to the graph

Linking a call appends its nodes to the arena in a fixed order: the return site, two for every
argument, two for the result (`linkNodes`).  The edges it makes are told by the places of these
nodes, of the call site and of the callee's entry and exit, whatever a place is (`linkArcs`); they
include a copy of each edge given for the return site to go on with.  `linkState_progress` says
that this is all, and that the record notes exactly the slots of these nodes.
-/
import Mathlib.Data.List.Induction
import Retarget.Proofs.KernelWiring
import Retarget.Proofs.Ledger

namespace Retarget

open Retarget.Source (NodeId)

set_option autoImplicit false
set_option linter.dupNamespace false

/-- Whether calls of the kernel have a result. -/
def SourceUnit.returns (u : SourceUnit) (k : KernelId) : Bool :=
  ((u.kernel? k).map (·.result != "void")).getD false

/-- The same edge between other places. -/
def moveArc {α β : Type} (f : α → β) (e : α × α × EdgeKind) : β × β × EdgeKind :=
  (f e.1, f e.2.1, e.2.2)

namespace PropertyGraph

/-! ## Nodes and edges of a linked call -/

/-- What the caller passes. -/
def actualNode (caller : KernelId) (arg : NodeId × Nat) : GraphNode :=
  { kind := .actualIn, kernel := caller, stmt := some arg.1, param := some arg.2 }

/-- What the callee receives. -/
def formalNode (callee : KernelId) (i : Nat) : GraphNode :=
  { kind := .formalIn, kernel := callee, param := some i }

def argNodes (caller callee : KernelId) (arg : NodeId × Nat) : List GraphNode :=
  [actualNode caller arg, formalNode callee arg.2]

/-- The result as the callee gives it. -/
def givenNode (callee : KernelId) : GraphNode := { kind := .formalOut, kernel := callee }

/-- The result as the caller gets it. -/
def gottenNode (caller : KernelId) (call : NodeId) : GraphNode :=
  { kind := .actualOut, kernel := caller, stmt := some call }

def resultNodes (r : CallRecord) (callee : KernelId) : List GraphNode :=
  [givenNode callee, gottenNode r.caller r.call]

/-- The nodes of a linked call in the order they are made. -/
def linkNodes (r : CallRecord) (callee : KernelId) (returns : Bool) : List GraphNode :=
  returnNode r :: r.args.zipIdx.flatMap (argNodes r.caller callee) ++
    if returns then resultNodes r callee else []

section Arcs

variable {α β : Type}

/-- The edges for the `i`-th argument. -/
def argArcs (site : α) (place : Nat → α) (i : Nat) : List (α × α × EdgeKind) :=
  [(site, place (2 * i + 1), .paramIn), (place (2 * i + 1), place (2 * i + 2), .paramIn)]

def resultArcs (exit : α) (place : Nat → α) (args : Nat) : List (α × α × EdgeKind) :=
  [(exit, place (2 * args + 1), .paramOut),
    (place (2 * args + 1), place (2 * args + 2), .paramOut),
    (place (2 * args + 2), place 0, .paramOut)]

/-- The edges of a linked call when its nodes are at the given places and its return site goes on
along copies of `after`. -/
def linkArcs (site entry exit : α) (place : Nat → α) (after : List (α × α × EdgeKind)) (args : Nat)
    (returns : Bool) : List (α × α × EdgeKind) :=
  [(site, entry, .call), (exit, place 0, .ret)] ++ after.map (fun e => (place 0, e.2)) ++
    (List.range args).flatMap (argArcs site place) ++
    if returns then resultArcs exit place args else []

theorem mem_linkArcs {site entry exit : α} {place : Nat → α} {after : List (α × α × EdgeKind)}
    {args : Nat} {returns : Bool} {e : α × α × EdgeKind} :
    e ∈ linkArcs site entry exit place after args returns ↔
      e = (site, entry, .call) ∨ e = (exit, place 0, .ret) ∨ (∃ a ∈ after, e = (place 0, a.2)) ∨
      (∃ i < args, e = (site, place (2 * i + 1), .paramIn) ∨
        e = (place (2 * i + 1), place (2 * i + 2), .paramIn)) ∨
      (returns = true ∧ e ∈ resultArcs exit place args) := by
  cases returns <;>
    simp [linkArcs, argArcs, List.mem_append, List.mem_flatMap, eq_comm (b := e)]

/-- Of the local kinds a call makes nothing but the copies. -/
theorem linkArcs_filter_local {site entry exit : α} {place : Nat → α}
    {after : List (α × α × EdgeKind)} (locals : ∀ e ∈ after, e.2.2.isLocal = true) (args : Nat)
    (returns : Bool) :
    (linkArcs site entry exit place after args returns).filter (·.2.2.isLocal)
      = after.map fun e => (place 0, e.2) := by
  have copies : (after.map fun e => (place 0, e.2)).filter (·.2.2.isLocal)
      = after.map fun e => (place 0, e.2) := by
    rw [List.filter_map]
    exact congrArg _ (List.filter_eq_self.mpr locals)
  have passed : ((List.range args).flatMap (argArcs site place)).filter (·.2.2.isLocal) = [] := by
    rw [List.filter_flatMap]
    exact List.flatMap_eq_nil_iff.mpr fun _ _ => rfl
  have result : (if returns then resultArcs exit place args else []).filter (·.2.2.isLocal) = [] := by
    cases returns <;> rfl
  rw [linkArcs, List.filter_append, List.filter_append, List.filter_append, copies, passed, result,
    List.append_nil, List.append_nil]
  rfl

/-- More to go on with is that many edges more. -/
theorem linkArcs_append_perm (site entry exit : α) (place : Nat → α)
    (after more : List (α × α × EdgeKind)) (args : Nat) (returns : Bool) :
    (linkArcs site entry exit place (after ++ more) args returns).Perm
      (linkArcs site entry exit place after args returns ++ more.map fun e => (place 0, e.2)) := by
  simp only [linkArcs, List.map_append, List.append_assoc]
  refine List.Perm.append_left _ (List.Perm.append_left _ ?_)
  rw [← List.append_assoc _ _ (more.map _)]
  exact List.perm_append_comm

theorem linkArcs_perm (site entry exit : α) (place : Nat → α) {after other : List (α × α × EdgeKind)}
    (args : Nat) (returns : Bool) (same : after.Perm other) :
    (linkArcs site entry exit place after args returns).Perm
      (linkArcs site entry exit place other args returns) := by
  simp only [linkArcs]
  exact ((same.map _).append_left _).append_right _ |>.append_right _

/-- The edges of a linked call depend on nothing but the places. -/
theorem linkArcs_map (f : α → β) (site entry exit : α) (place : Nat → α)
    (after : List (α × α × EdgeKind)) (args : Nat) (returns : Bool) :
    (linkArcs site entry exit place after args returns).map (moveArc f)
      = linkArcs (f site) (f entry) (f exit) (fun i => f (place i)) (after.map (moveArc f)) args
          returns := by
  have each (i : Nat) : (argArcs site place i).map (moveArc f)
      = argArcs (f site) (fun i => f (place i)) i := rfl
  simp only [linkArcs, List.map_append, List.map_flatMap, List.map_map, each]
  congr 1
  cases returns <;> rfl

end Arcs

theorem linkNodes_length (r : CallRecord) (callee : KernelId) (returns : Bool) :
    (linkNodes r callee returns).length = 2 * r.args.length + if returns then 3 else 1 := by
  have two : (r.args.zipIdx.flatMap (argNodes r.caller callee)).length = 2 * r.args.length := by
    rw [List.length_flatMap]
    simp [argNodes, Nat.mul_comm]
  cases returns <;> simp [linkNodes, two, resultNodes]

theorem mem_linkNodes {r : CallRecord} {callee : KernelId} {returns : Bool} {n : GraphNode}
    (member : n ∈ linkNodes r callee returns) :
    n.kind.isLink = true ∧ n.removed = false ∧ n.succs = [] ∧ n.preds = [] ∧ n.target = none := by
  rw [linkNodes, List.mem_append, List.mem_cons, List.mem_flatMap] at member
  rcases member with (rfl | ⟨arg, -, passed⟩) | result
  · exact ⟨rfl, rfl, rfl, rfl, rfl⟩
  · rw [argNodes, List.mem_cons, List.mem_singleton] at passed
    rcases passed with rfl | rfl <;> exact ⟨rfl, rfl, rfl, rfl, rfl⟩
  · cases returns with
    | false => cases result
    | true =>
        rw [if_pos rfl, resultNodes, List.mem_cons, List.mem_singleton] at result
        rcases result with rfl | rfl <;> exact ⟨rfl, rfl, rfl, rfl, rfl⟩

/-! ## Linking adds them -/

section Link

variable {g h : PropertyGraph} {r : CallRecord} {callee : BuiltKernel} {fresh : List GraphNode}
  {arcs : List Arc}

/-- The construction so far, with the slots noted for the record. -/
structure Progress (g : PropertyGraph) (state : PropertyGraph × List Slot)
    (fresh : List GraphNode) (arcs : List Arc) : Prop where
  adds : g.Adds state.1 fresh arcs
  created : state.2 = List.range' g.nodes.size fresh.length

namespace Progress

variable {created : List Slot}

theorem addNode (progress : Progress g (h, created) fresh arcs) (n : GraphNode)
    (bare : n.succs = [] ∧ n.preds = []) :
    Progress g ((h.addNode n).1, created ++ [h.nodes.size]) (fresh ++ [n]) arcs where
  adds := progress.adds.addNode n bare
  created := by
    have same : created = List.range' g.nodes.size fresh.length := progress.created
    rw [List.length_append, List.length_singleton, List.range'_concat, Nat.one_mul,
      ← progress.adds.size, same]

theorem addEdge (progress : Progress g (h, created) fresh arcs) {a b : Slot} (kind : EdgeKind)
    (inside : a < h.nodes.size) :
    Progress g (h.addEdge a b kind, created) fresh (arcs ++ [(a, b, kind)]) where
  adds := progress.adds.addEdge kind (progress.adds.size ▸ inside)
  created := progress.created

/-- The nodes and edges of one argument, after the return site and `n` other arguments. -/
theorem linkArg {state : PropertyGraph × List Slot} {site : Slot} {n : Nat}
    (progress : Progress g state fresh arcs) (odd : fresh.length = 2 * n + 1)
    (inside : site < g.nodes.size) (caller callee : KernelId) (arg : NodeId) :
    Progress g (linkArg caller callee site state (arg, n))
      (fresh ++ argNodes caller callee (arg, n)) (arcs ++ argArcs site (g.nodes.size + ·) n) := by
  obtain ⟨h, created⟩ := state
  have place : h.nodes.size = g.nodes.size + (2 * n + 1) := by rw [progress.adds.size, odd]
  have placeNext : (h.addNode (actualNode caller (arg, n))).1.nodes.size
      = g.nodes.size + (2 * n + 2) := by
    rw [size_addNode, place, Nat.add_assoc]
  have made := (progress.addNode (actualNode caller (arg, n)) ⟨rfl, rfl⟩).addNode
    (formalNode callee n) ⟨rfl, rfl⟩
  have room : ((h.addNode (actualNode caller (arg, n))).1.addNode (formalNode callee n)).1.nodes.size
      = g.nodes.size + (2 * n + 3) := by
    rw [size_addNode, placeNext, Nat.add_assoc]
  have passed := made.addEdge (b := g.nodes.size + (2 * n + 1)) .paramIn
    (room ▸ Nat.lt_of_lt_of_le inside (Nat.le_add_right _ _))
  have received := passed.addEdge (a := g.nodes.size + (2 * n + 1))
    (b := g.nodes.size + (2 * n + 2)) .paramIn (by
      rw [size_addEdge, room]
      exact Nat.add_lt_add_left (by omega) _)
  simp only [List.append_assoc, List.singleton_append] at received
  rw [← place, ← placeNext] at received
  rw [argNodes, argArcs, ← place, ← placeNext]
  exact received

theorem linkArgs {base : PropertyGraph} {site : Slot} {first : GraphNode}
    (progress : Progress g (base, [g.nodes.size]) [first] arcs) (inside : site < g.nodes.size)
    (caller callee : KernelId) (args : List NodeId) :
    Progress g (args.zipIdx.foldl (PropertyGraph.linkArg caller callee site) (base, [g.nodes.size]))
      (first :: args.zipIdx.flatMap (argNodes caller callee))
      (arcs ++ (List.range args.length).flatMap (argArcs site (g.nodes.size + ·))) := by
  induction args using List.reverseRecOn with
  | nil => simpa using progress
  | append_singleton args arg ih =>
      have count : (args.zipIdx.flatMap (argNodes caller callee)).length = 2 * args.length := by
        simp [List.length_flatMap, argNodes, Nat.mul_comm]
      have next := ih.linkArg (n := args.length) (by simp [count]) inside caller callee arg
      simp only [List.zipIdx_append, List.foldl_append, List.flatMap_append, List.length_append,
        List.length_singleton, List.range_succ, List.zipIdx_singleton, List.foldl_cons,
        List.foldl_nil, List.flatMap_singleton, Nat.zero_add]
      simpa using next

theorem linkResult {state : PropertyGraph × List Slot} {n : Nat} {callee : BuiltKernel}
    (progress : Progress g state fresh arcs) (odd : fresh.length = 2 * n + 1)
    (inside : callee.exit < g.nodes.size) :
    Progress g (linkResult r.caller callee r.call g.nodes.size state)
      (fresh ++ resultNodes r callee.kernel)
      (arcs ++ resultArcs callee.exit (g.nodes.size + ·) n) := by
  obtain ⟨h, created⟩ := state
  have place : h.nodes.size = g.nodes.size + (2 * n + 1) := by rw [progress.adds.size, odd]
  have placeNext : (h.addNode (givenNode callee.kernel)).1.nodes.size
      = g.nodes.size + (2 * n + 2) := by
    rw [size_addNode, place, Nat.add_assoc]
  have made := (progress.addNode (givenNode callee.kernel) ⟨rfl, rfl⟩).addNode
    (gottenNode r.caller r.call) ⟨rfl, rfl⟩
  have room : ((h.addNode (givenNode callee.kernel)).1.addNode
      (gottenNode r.caller r.call)).1.nodes.size = g.nodes.size + (2 * n + 3) := by
    rw [size_addNode, placeNext, Nat.add_assoc]
  have left := made.addEdge (b := g.nodes.size + (2 * n + 1)) .paramOut
    (room ▸ Nat.lt_of_lt_of_le inside (Nat.le_add_right _ _))
  have crossed := left.addEdge (a := g.nodes.size + (2 * n + 1))
    (b := g.nodes.size + (2 * n + 2)) .paramOut (by
      rw [size_addEdge, room]
      exact Nat.add_lt_add_left (by omega) _)
  have arrived := crossed.addEdge (a := g.nodes.size + (2 * n + 2)) (b := g.nodes.size) .paramOut
    (by
      rw [size_addEdge, size_addEdge, room]
      exact Nat.add_lt_add_left (by omega) _)
  simp only [List.append_assoc, List.singleton_append] at arrived
  rw [← place, ← placeNext] at arrived
  rw [resultNodes, resultArcs, ← place, ← placeNext]
  exact arrived

theorem refl (g : PropertyGraph) : Progress g (g, []) [] [] := ⟨.refl g, rfl⟩

/-- Copies of edges for the return site. -/
theorem resume {returnSite : Slot} (progress : Progress g (h, created) fresh arcs)
    (inside : returnSite < h.nodes.size) (after : List Edge) :
    Progress g (after.foldl (fun g e => g.addEdge returnSite e.other e.kind) h, created) fresh
      (arcs ++ after.map fun e => (returnSite, e.other, e.kind)) := by
  induction after generalizing h arcs with
  | nil => simpa using progress
  | cons e after ih =>
      have next := progress.addEdge (b := e.other) e.kind inside
      have later := ih next (by rw [size_addEdge]; exact inside)
      rw [List.append_assoc] at later
      exact later

end Progress

/-- The edges that the return site of a call takes over. -/
def resumed (g : PropertyGraph) (site : Slot) : List Arc :=
  ((g.succsOf site).filter (·.kind != .call)).map fun e => (site, e.other, e.kind)

/-- Linking a call adds its nodes and its edges and notes the slots of the nodes. -/
theorem linkState_progress (atSite : r.site < g.nodes.size) (atExit : callee.exit < g.nodes.size)
    (returns : Bool) :
    Progress g (g.linkState returns r callee) (linkNodes r callee.kernel returns)
      (linkArcs r.site callee.entry callee.exit (g.nodes.size + ·) (g.resumed r.site)
        r.args.length returns) := by
  have made := (Progress.refl g).addNode (returnNode r) ⟨rfl, rfl⟩
  have room : (g.addNode (returnNode r)).1.nodes.size = g.nodes.size + 1 := size_addNode _
  have called := made.addEdge (a := r.site) (b := callee.entry) .call (by
    rw [room]
    exact Nat.lt_succ_of_lt atSite)
  have opened := called.addEdge (a := callee.exit) (b := g.nodes.size) .ret (by
    rw [size_addEdge, room]
    exact Nat.lt_succ_of_lt atExit)
  have inside : g.nodes.size < (g.openCall r callee).nodes.size := by
    rw [openCall, size_addEdge, size_addEdge, room]
    exact Nat.lt_succ_self _
  have resumed := opened.resume inside ((g.succsOf r.site).filter (·.kind != .call))
  have passed := resumed.linkArgs atSite r.caller callee.kernel r.args
  have copies : (g.resumed r.site).map (fun e => (g.nodes.size + 0, e.2))
      = ((g.succsOf r.site).filter (·.kind != .call)).map fun e =>
        (g.nodes.size, e.other, e.kind) := by
    rw [PropertyGraph.resumed, List.map_map]
    rfl
  have plain : Progress g (g.linkState false r callee) (linkNodes r callee.kernel false)
      (linkArcs r.site callee.entry callee.exit (g.nodes.size + ·) (g.resumed r.site)
        r.args.length false) := by
    rw [linkNodes, linkArcs, copies]
    simpa [linkState, openCall] using passed
  cases returns with
  | false => exact plain
  | true =>
      have given := plain.linkResult (r := r) (linkNodes_length r callee.kernel false) atExit
      have last : g.linkState true r callee
          = linkResult r.caller callee r.call g.nodes.size (g.linkState false r callee) := rfl
      rw [last]
      simpa [linkNodes, linkArcs] using given

end Link

end PropertyGraph

end Retarget
