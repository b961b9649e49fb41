import GraphLowering.Graph.Insertion

/-!
# Taking a node out and putting something in its place

`Edit.detach` takes a node and its edges out of a graph and remembers them in a `Detachment`. After
that there are two ways on. `Edit.restore` links the nodes that were added since to the neighbours
of the detached node. `Edit.reattach` drops the nodes and tensors that were added since and puts the
node back.

New nodes and tensors are told by their numbers: the detachment records the first number that was
free.
-/

namespace GraphLowering

/-- The surroundings of a node that was taken out of a graph. -/
structure Detachment where
  node : NodeId
  /-- The name the node had. -/
  name : String
  /-- Where the edges to the node came from, with their tensors. -/
  predecessors : List (NodeId × TensorId)
  /-- Where the edges from the node went, with their tensors. -/
  successors : List (TensorId × NodeId)
  /-- Nodes from this number on were added later. -/
  firstNew : Nat
  /-- Tensors from this position on were registered later. -/
  tensorCount : Nat
  /-- Whether a lowering had put the node in. -/
  lowered : Bool
deriving DecidableEq

namespace Graph

def detachment (g : Graph) (id : NodeId) (node : Node) : Detachment where
  node := id
  name := node.name
  predecessors := (g.edges.filter (·.target == id)).map fun e => (e.source, e.tensor)
  successors :=
    (g.edges.filter fun e => e.target != id && e.source == id).map fun e => (e.tensor, e.target)
  firstNew := g.nextNode
  tensorCount := g.tensors.length
  lowered := node.lowered

/-- The graph without a node and its edges. The tensors it produces stay claimed. -/
def eraseNode (g : Graph) (id : NodeId) : Graph :=
  { g with
    nodes := g.nodes.erase id.index
    edges := g.edges.filter fun e => e.target != id && e.source != id }

/-- The graph without what was added since a detachment. The lists of model inputs and outputs stay
as they are. -/
def cutBack (g : Graph) (d : Detachment) : Graph :=
  { g with
    tensors := g.tensors.take d.tensorCount
    index := (g.tensors.drop d.tensorCount).foldl (fun index t => index.erase t.name) g.index
    nodes := g.nodes.filter fun id _ => id < d.firstNew
    edges := g.edges.filter fun e => e.source.index < d.firstNew && e.target.index < d.firstNew
    producers := g.producers.filter fun t n => t < d.tensorCount && n.index < d.firstNew }

def newNodeCount (g : Graph) (d : Detachment) : Nat :=
  (g.nodes.filter fun id _ => d.firstNew ≤ id).size

def putBack (g : Graph) (kind : NodeKind) (d : Detachment) : Graph :=
  let placed : Graph :=
    { g.claim d.node kind.outputs with
      nodes := g.nodes.insert d.node.index ⟨d.node, d.name, kind, d.lowered⟩ }
  let fed := d.predecessors.foldl (fun g (source, tensor) => g.addEdge ⟨source, d.node, tensor⟩) placed
  d.successors.foldl (fun g (tensor, target) => g.addEdge ⟨d.node, target, tensor⟩) fed

def newReaders (g : Graph) (d : Detachment) (tensor : TensorId) : List NodeId :=
  (g.nodes.entries.filter fun (id, node) => d.firstNew ≤ id && node.kind.inputs.contains tensor).map
    fun (id, _) => ⟨id⟩

end Graph

namespace Edit

def detach (id : NodeId) : Edit (NodeKind × Detachment) := do
  let g ← graph
  match g.node? id with
  | none => reject (.graph (.unknownNode id))
  | some node =>
    modifyGraph (·.eraseNode id)
    return (node.kind, g.detachment id node)

/-- Drops what was added since a node was detached and puts it back, as a node of the given kind. -/
def reattach (kind : NodeKind) (d : Detachment) : Edit Unit := do
  let g ← graph
  if g.tensors.length < d.tensorCount then
    faulty .fewerTensors
  else
    modifyGraph fun g => (g.cutBack d).putBack kind d
    note (.reattached d.name (g.newNodeCount d))

def addNewEdge (edge : Edge) : Edit Nat := do
  if edge ∈ (← graph).edges then
    return 0
  else
    modifyGraph (·.addEdge edge)
    return 1

def sum {α : Type} (xs : List α) (count : α → Edit Nat) : Edit Nat :=
  xs.foldlM (fun n x => do return n + (← count x)) 0

/-- Links the source of an edge to a detached node with the new nodes that read its tensor, unless
something else produces the tensor now. -/
def restorePredecessor (d : Detachment) (source : NodeId) (tensor : TensorId) : Edit Nat := do
  let g ← graph
  if g.producer? tensor = some source then
    match g.newReaders d tensor with
    | [] =>
      let t ← orFault .droppedTensor (g.tensor? tensor)
      note (.unconsumed d.name t.name source)
      return 0
    | readers => sum readers fun target => addNewEdge ⟨source, target, tensor⟩
  else
    return 0

def restoreSuccessor (d : Detachment) (tensor : TensorId) (target : NodeId) : Edit Nat := do
  let g ← graph
  match g.node? target with
  | none => return 0
  | some reader =>
    match g.producer? tensor with
    | none =>
      let t ← orFault .droppedTensor (g.tensor? tensor)
      reject (.graph (.unresolvedEdge t.name reader.name))
    | some source =>
      let added ← addNewEdge ⟨source, target, tensor⟩
      if added = 1 then
        note (.edgeRestored d.name source target)
      return added

/-- Links the neighbours of a detached node with the nodes that were added since, and counts the new
edges. Readers of the node that are still there need a producer of their tensor. -/
def restore (d : Detachment) : Edit Nat := do
  let before ← sum d.predecessors fun (source, tensor) => restorePredecessor d source tensor
  let after ← sum d.successors fun (tensor, target) => restoreSuccessor d tensor target
  return before + after

end Edit

end GraphLowering
