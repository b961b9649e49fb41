import GraphLowering.Edit
import GraphLowering.Graph.Contract

/-!
# Adding tensors, nodes and edges

A new node is linked to the nodes that produce the tensors it reads. A tensor with a buffer that
nothing produces gets a constant node when it is first read.

A node has to find the tensors it produces unclaimed. Only a node that a lowering puts in may take
over a tensor from a node that has been detached.
-/

namespace GraphLowering

def Graph.claimError? (g : Graph) (lowered : Bool) (tensor : TensorId) : Option GraphError :=
  match g.producers.get? tensor.index with
  | none => none
  | some holder =>
    if g.isLive holder ∨ ¬ lowered then
      some (.duplicateProducer (((g.tensor? tensor).map (·.name)).getD "") holder
        ((g.node? holder).map (·.name)))
    else
      none

/-- Why a node cannot be added: a tensor that it names is not registered, or one that it produces is
claimed. -/
def Graph.insertError? (g : Graph) (kind : NodeKind) (lowered : Bool) : Option GraphError :=
  match (kind.inputs ++ kind.outputs).find? fun t => (g.tensor? t).isNone with
  | some t => some (.unknownTensor t)
  | none => kind.outputs.findSome? (g.claimError? lowered)

/-- The name of a node: the name of the first tensor that it produces or, if it produces none,
reads. -/
def Graph.nameFor (g : Graph) (kind : NodeKind) : String :=
  (((kind.outputs ++ kind.inputs).head?.bind g.tensor?).map (·.name)).getD ""

namespace Edit

def addTensor (tensor : Tensor) : Edit TensorId := do
  let g ← graph
  if (g.tensorNamed? tensor.name).isSome then
    reject (.graph (.duplicateTensor tensor.name))
  else
    modifyGraph (·.pushTensor tensor)
    return ⟨g.tensors.length⟩

def linkInput (reader : NodeId) (tensor : TensorId) : Edit Unit := do
  let g ← graph
  match g.producer? tensor with
  | some source => modifyGraph (·.addEdge ⟨source, reader, tensor⟩)
  | none =>
    let t ← orFault .droppedTensor (g.tensor? tensor)
    if t.isConstant then
      modifyGraph fun g =>
        (g.pushNode t.name (.constant tensor) false).addEdge ⟨⟨g.nextNode⟩, reader, tensor⟩
    else
      note (.noProducer reader t.name)

def insertNode (kind : NodeKind) (lowered : Bool) : Edit NodeId := do
  let g ← graph
  match g.insertError? kind lowered with
  | some e => reject (.graph e)
  | none =>
    modifyGraph (·.pushNode (g.nameFor kind) kind lowered)
    kind.inputs.forM (linkInput ⟨g.nextNode⟩)
    return ⟨g.nextNode⟩

def addInput (tensor : Tensor) : Edit TensorId := do
  let id ← addTensor tensor
  let _ ← insertNode (.input id) false
  modifyGraph fun g => { g with inputs := g.inputs ++ [id] }
  return id

def markOutput (tensor : TensorId) : Edit NodeId := do
  let id ← insertNode (.output tensor) false
  modifyGraph fun g => { g with outputs := g.outputs ++ [tensor] }
  return id

def addOperator (op : Operator) (lowered : Bool) : Edit NodeId := do
  liftGraph (op.check (← graph))
  insertNode (.operator op) lowered

def addComposite (op : Composite) : Edit NodeId :=
  insertNode (.composite op) false

def connect (source target : NodeId) (tensor : TensorId) : Edit Unit := do
  let g ← graph
  match [source, target].find? fun id => ¬ g.isLive id with
  | some id => reject (.graph (.unknownNode id))
  | none =>
    let _ ← liftGraph (g.tensor tensor)
    modifyGraph (·.addEdge ⟨source, target, tensor⟩)

end Edit

end GraphLowering
