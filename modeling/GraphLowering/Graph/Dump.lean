import GraphLowering.Graph.Basic

/-!
# Text dump of a graph

The tensors, the nodes and, if there are any, the edges of a graph, each on a line. Nodes that a
lowering put in are marked with a star.
-/

namespace GraphLowering

def Tensor.line (id : TensorId) (t : Tensor) : String :=
  "  " ++ id.text ++ " " ++ t.name ++ ": " ++ t.elementType.text ++ t.shape.text
    ++ (if t.isConstant then " const" else "")
    ++ (match t.quantization with
      | none => ""
      | some q => " (" ++ q.text ++ ")")
    ++ "\n"

def tensorList (ids : List TensorId) : String :=
  commaSeparated (ids.map TensorId.text)

def NodeKind.text : NodeKind → String
  | operator op =>
    op.kind.text ++ " (" ++ tensorList op.inputs ++ ") -> (" ++ tensorList op.outputs ++ ")"
  | kind => kind.label ++ " " ++ tensorList (kind.inputs ++ kind.outputs)

def Node.line (node : Node) : String :=
  "  " ++ (if node.lowered then "*" else " ") ++ node.id.text ++
    " " ++ node.kind.text ++ "  // " ++ node.name ++ "\n"

def Edge.line (e : Edge) : String :=
  "  " ++ e.source.text ++ " -> " ++ e.target.text ++ " via " ++ e.tensor.text ++ "\n"

namespace Graph

def printable (g : Graph) : Bool :=
  g.tensors.all (·.elementType.printable)

/-- The text of a graph. It is shown only for `printable` graphs. -/
def dump (g : Graph) : String :=
  let tensors := g.tensors.zipIdx.map fun (t, i) => t.line ⟨i⟩
  let nodes := g.nodes.entries.map fun (_, node) => node.line
  "Tensors:\n" ++ String.join tensors ++ "\nNodes:\n" ++ String.join nodes
    ++ if g.edges.isEmpty then "" else "\nEdges:\n" ++ String.join (g.edges.map Edge.line)

end Graph

end GraphLowering
