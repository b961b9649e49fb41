import GraphLowering.NameIndex
import GraphLowering.Operator
import GraphLowering.Table

/-!
# Model graphs

A graph holds tensors and nodes. A node is a primitive operator, a composite that is still to be
lowered, or a boundary node: a model input, a constant, a model output. An edge leads from the node
that produces a tensor to one that reads it.

A tensor is identified by its position among the registered tensors, and found by its name through
`Graph.index`. A node is identified by a number that is never given twice. `Graph.producers` records
the node that produces a tensor. The record outlives the node: when a node is detached, its tensors
stay claimed until another node takes them over, and `Graph.producer?` is the producer that is still
there.
-/

namespace GraphLowering

structure NodeId where
  index : Nat
deriving DecidableEq

def NodeId.text (id : NodeId) : String :=
  "n" ++ id.index.repr

inductive NodeKind where
  /-- A model input; it produces its tensor. -/
  | input (tensor : TensorId)
  /-- A constant; it produces a tensor with a buffer. -/
  | constant (tensor : TensorId)
  /-- A model output; it reads its tensor. -/
  | output (tensor : TensorId)
  | operator (op : Operator)
  | composite (op : Composite)
deriving DecidableEq

namespace NodeKind

def inputs : NodeKind → List TensorId
  | input _ | constant _ => []
  | output tensor => [tensor]
  | operator op => op.inputs
  | composite op => op.inputs

def outputs : NodeKind → List TensorId
  | input tensor | constant tensor => [tensor]
  | output _ => []
  | operator op => op.outputs
  | composite op => [op.output]

def label : NodeKind → String
  | input _ => "INPUT"
  | constant _ => "CONSTANT"
  | output _ => "OUTPUT"
  | operator op => op.kind.name
  | composite op => op.name

def isConstant : NodeKind → Bool
  | constant _ => true
  | _ => false

def isComposite : NodeKind → Bool
  | composite _ => true
  | _ => false

end NodeKind

structure Node where
  id : NodeId
  /-- The name of the first tensor the node produces or, if it produces none, reads. -/
  name : String
  kind : NodeKind
  /-- Whether a lowering put the node in. -/
  lowered : Bool
deriving DecidableEq

/-- A tensor on its way from the node that produces it to one that reads it. -/
structure Edge where
  source : NodeId
  target : NodeId
  tensor : TensorId
deriving DecidableEq

structure Graph where
  tensors : List Tensor
  /-- The numbers of the tensors by their names. -/
  index : NameIndex
  nodes : Table Node
  edges : List Edge
  /-- The node that produces a tensor, or did so before it was detached. -/
  producers : Table NodeId
  inputs : List TensorId
  outputs : List TensorId
  /-- The number of the next node. -/
  nextNode : Nat
deriving DecidableEq

namespace Graph

def empty : Graph :=
  ⟨[], .empty, .empty, [], .empty, [], [], 0⟩

/-! ## What a graph holds -/

def tensor? (g : Graph) (id : TensorId) : Option Tensor :=
  g.tensors[id.index]?

def tensorNamed? (g : Graph) (name : String) : Option TensorId :=
  g.index.find? name

def node? (g : Graph) (id : NodeId) : Option Node :=
  g.nodes.get? id.index

def isLive (g : Graph) (id : NodeId) : Bool :=
  g.nodes.contains id.index

def nodeIds (g : Graph) : List NodeId :=
  g.nodes.keys.map NodeId.mk

def producer? (g : Graph) (tensor : TensorId) : Option NodeId :=
  (g.producers.get? tensor.index).filter g.isLive

def producerNamed? (g : Graph) (name : String) : Option NodeId :=
  (g.tensorNamed? name).bind g.producer?

def outDegree (g : Graph) (id : NodeId) : Nat :=
  (g.edges.filter (·.source == id)).length

def successors (g : Graph) (id : NodeId) : List NodeId :=
  (g.edges.filter (·.source == id)).map (·.target)

def predecessors (g : Graph) (id : NodeId) : List NodeId :=
  (g.edges.filter (·.target == id)).map (·.source)

/-! ## Elementary changes -/

def pushTensor (g : Graph) (tensor : Tensor) : Graph :=
  { g with
    tensors := g.tensors ++ [tensor]
    index := g.index.insert tensor.name ⟨g.tensors.length⟩ }

/-- The graph with an edge, which is added only if it is not there. -/
def addEdge (g : Graph) (edge : Edge) : Graph :=
  if edge ∈ g.edges then g else { g with edges := g.edges ++ [edge] }

/-- The graph in which the node with a given number claims the tensors of a list. -/
def claim (g : Graph) (id : NodeId) (tensors : List TensorId) : Graph :=
  { g with producers := tensors.foldl (fun table t => table.insert t.index id) g.producers }

/-- The graph with a node under the next number, which claims the tensors it produces. -/
def pushNode (g : Graph) (name : String) (kind : NodeKind) (lowered : Bool) : Graph :=
  { g.claim ⟨g.nextNode⟩ kind.outputs with
    nodes := g.nodes.insert g.nextNode ⟨⟨g.nextNode⟩, name, kind, lowered⟩
    nextNode := g.nextNode + 1 }

end Graph

end GraphLowering
