/-
# PropertyGraph.Dot -- control flow and dependences drawn as DOT
-/
import Retarget.PropertyGraph.Query
import Retarget.Kernel.CText
import Retarget.Dot

namespace Retarget

open Retarget.Source (NodeId)
open Retarget.Dot (Statement Attributes digraph label escape)

def NodeKind.color? : NodeKind → Option String
  | .entry => some "lightgreen"
  | .exit => some "lightcoral"
  | .callSite => some "lightblue"
  | .returnSite => some "lightyellow"
  | .statement => none
  | _ => some "lightgray"

def EdgeKind.attributes : EdgeKind → Attributes
  | .call => [("color", "red"), ("style", "bold"), ("label", "call")]
  | .ret => [("color", "blue"), ("style", "dashed"), ("label", "return")]
  | .paramIn | .paramOut => [("color", "gray"), ("style", "dashed")]
  | .taken => [("label", "T")]
  | .skipped => [("label", "F")]
  | .within | .between => []

def DepKind.color : DepKind → String
  | .flow => "blue"
  | .anti => "orange"
  | .output => "purple"

namespace PropertyGraph

variable (g : PropertyGraph) (u : SourceUnit)

def slotName (s : Slot) : String := s!"n{s}"

def stmtText (n : GraphNode) : String := (n.stmt.map u.printId).getD ""

def nodeLabel (n : GraphNode) : String :=
  match n.kind with
  | .entry | .exit => n.kind.name ++ ": " ++ ((u.kernel? n.kernel).map (·.name)).getD ""
  | .formalIn | .formalOut | .actualIn =>
    let position := (n.param.map toString).getD "-1"
    n.kind.name ++ "[" ++ position ++ "]" ++ (if n.stmt.isSome then " " ++ stmtText u n else "")
  | .actualOut | .returnSite => n.kind.name ++ " " ++ stmtText u n
  | .statement | .callSite => stmtText u n

def fill (color : Option String) : Attributes :=
  match color with
  | some c => [("style", "filled"), ("fillcolor", c)]
  | none => []

/-- The slots drawn so far and the statements written. -/
structure Drawing where
  drawn : List Slot := []
  text : List Statement := []

/-- Write a node unless it has been drawn. -/
def Drawing.node (d : Drawing) (s : Slot) (n : GraphNode) : Drawing :=
  if d.drawn.contains s then d
  else
    { drawn := s :: d.drawn
      text := d.text ++ [.node (slotName s) (("label", label (nodeLabel u n)) :: fill n.kind.color?)] }

def Drawing.edge (d : Drawing) (source target : Slot) (attrs : Attributes) : Drawing :=
  { d with text := d.text ++ [.edge (slotName source) (slotName target) attrs] }

/-- Draw the edges at one node of kernel `k`: those that stay inside or lead into a callee, and
those that come back from one. -/
def drawEdges (k : KernelId) (d : Drawing) (own : Slot × GraphNode) : Drawing :=
  let (s, n) := own
  let d := n.succs.foldl (fun d e =>
    match g.node? e.other with
    | none => d
    | some m =>
      if m.kernel != k && e.kind != .call && e.kind != .ret && e.kind != .paramIn then d
      else (d.node u e.other m).edge s e.other e.kind.attributes) d
  n.preds.foldl (fun d e =>
    match g.node? e.other with
    | none => d
    | some m =>
      if m.kernel != k && (e.kind == .ret || e.kind == .paramOut) then
        (d.node u e.other m).edge e.other s e.kind.attributes
      else d) d

/-- The control flow of one kernel with the nodes of its linked calls. -/
def flowDot (k : KernelFn) : String :=
  let own := if g.isBuilt k.id then
      (g.nodes.toList.zipIdx.filter fun (n, _) => !n.removed && n.kernel == k.id).map
        fun (n, s) => (s, n)
    else []
  let d := own.foldl (fun d (s, n) => Drawing.node u d s n) {}
  digraph (k.name ++ " ICFG") (own.foldl (g.drawEdges u k.id) d).text

/-- The data and control dependences of one kernel. -/
def dependenceDot (k : KernelFn) : String :=
  let name := fun n => slotName ((g.index.lookup n).getD 0)
  let statements := match g.builtKernel? k.id with
    | none => []
    | some b =>
      let nodes := b.stmts.map fun n =>
        let isCall := (((g.index.lookup n).bind g.node?).map (·.kind == .callSite)).getD false
        Statement.node (name n)
          (("label", label (u.printId n)) :: fill (if isCall then NodeKind.color? .callSite else none))
      let edges := b.stmts.flatMap fun n =>
        (((b.facts.deps.record n).data.filter (·.source == n)).map fun d =>
          Statement.edge (name d.source) (name d.sink)
            [("color", d.kind.color), ("style", "dashed"), ("label", escape d.var)]) ++
          ((b.facts.deps.record n).control.filter (·.controller == n)).map fun d =>
            Statement.edge (name d.controller) (name d.dependent)
              [("color", "red"), ("style", "dotted"), ("label", if d.branch then "T" else "F")]
      nodes ++ edges
  digraph (k.name ++ " PDG") statements

end PropertyGraph

end Retarget
