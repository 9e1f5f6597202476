/-
# Operation.Dot -- operation graphs as DOT text

Statements are boxes, operands ellipses, control headers diamonds; vector operations are
filled, and what is marked for vectorisation has a green border. Data edges are blue.
-/
import Retarget.Dot
import Retarget.Operation.Graph

namespace Retarget

namespace OpNode

variable (n : OpNode)

def dotLabel : String :=
  n.name ++ (if n.operation != "" && n.operation != n.name then "\n" ++ n.operation else "") ++
    (if n.variableName != "" then " " ++ n.variableName else "")

/-- The outline of an operand is always an ellipse, whatever its kind. -/
def dotShape : Dot.Attributes :=
  if !n.isStatement && n.kind != .blockEnd then [("shape", "ellipse")]
  else if n.kind == .blockEnd then [("shape", "point")]
  else if n.kind.isControl then [("shape", "diamond")]
  else []

def dotFill : Dot.Attributes :=
  if n.kind.isVector then [("style", "filled"), ("fillcolor", "lightblue")]
  else if n.kind == .entry || n.kind == .exit then
    [("style", "filled"), ("fillcolor", "lightgreen")]
  else []

def dotAttributes : Dot.Attributes :=
  [("label", Dot.escape n.dotLabel)] ++ n.dotShape ++ n.dotFill ++
    (if n.isVectorized then [("color", "darkgreen"), ("penwidth", "2")] else [])

end OpNode

def OpEdge.dotAttributes (e : OpEdge) : Dot.Attributes :=
  (if e.label != "" then [("label", Dot.escape e.label)] else []) ++
    match e.kind with
    | .data => [("color", "blue"), ("style", "dashed")]
    | .control => [("color", "red"), ("style", "dotted")]
    | _ => []

namespace OperationGraph

def dotName (id : OpId) : String := "a" ++ toString id

def dot (g : OperationGraph) : String :=
  Dot.digraph g.name
    ((g.nodes.map fun n => Dot.Statement.node (dotName n.id) n.dotAttributes) ++
      g.edges.map fun e =>
        Dot.Statement.edge (dotName e.source) (dotName e.target) e.dotAttributes)

end OperationGraph

end Retarget
