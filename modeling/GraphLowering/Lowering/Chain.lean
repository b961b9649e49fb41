import GraphLowering.Graph.Detachment

/-!
# Chains of operators

A lowering replaces a detached node by a chain of operators. `Edit.emit` puts the chain into the
graph and links it to the neighbours of the node. `Graph.checkChain` looks whether the chain hangs
together there.

While a chain is drafted its operators are changed in their places.
-/

namespace GraphLowering

namespace Chain

variable {σ : Type}

/-- Changes the operands of the operator at a position, where there has to be one. -/
def changeInputs (ops : List Operator) (i : Nat)
    (change : List TensorId → EStateM Stop σ (List TensorId)) :
    EStateM Stop σ (List Operator) := do
  let op ← entry ops i
  setEntry ops i { op with inputs := ← change op.inputs }

def changeOutputs (ops : List Operator) (i : Nat)
    (change : List TensorId → EStateM Stop σ (List TensorId)) :
    EStateM Stop σ (List Operator) := do
  let op ← entry ops i
  setEntry ops i { op with outputs := ← change op.outputs }

def resultAt (ops : List Operator) (i : Nat) : EStateM Stop σ TensorId := do
  entry (← entry ops i).outputs 0

end Chain

namespace Edit

def emitOperator (d : Detachment) (op : Operator) : Edit NodeId := do
  let id ← addOperator op true
  note (.emitted d.name op.kind id)
  return id

/-- Puts a chain in the place of a detached node. -/
def emit (chain : List Operator) (d : Detachment) : Edit (List NodeId) := do
  let nodes ← chain.mapM (emitOperator d)
  let restored ← restore d
  note (.edgesRestored d.name restored)
  return nodes

end Edit

namespace Graph

/-- The first result of an operator is produced by a node of the graph that has a reader, and its
first reader is no constant. -/
def checkLink (g : Graph) (op : Operator) : Except LowerError Unit :=
  match op.outputs.head? with
  | none => .ok ()
  | some output =>
    match g.tensor? output with
    | none => .error (.graph (.unknownTensor output))
    | some tensor =>
      match g.producerNamed? tensor.name with
      | none => .error (.inconsistent tensor.name .noProducer)
      | some node =>
        match g.successors node with
        | [] => .error (.inconsistent tensor.name .noConsumer)
        | reader :: _ =>
          if (g.node? reader).any (·.kind.isConstant) then
            .error (.inconsistent tensor.name .feedsConstant)
          else
            .ok ()

/-- Every operator of a chain but the last feeds a node of the graph. -/
def checkChain (g : Graph) (chain : List Operator) : Except LowerError Unit :=
  chain.dropLast.forM g.checkLink

end Graph

def Edit.verify (chain : List Operator) : Edit Unit := do
  match (← graph).checkChain chain with
  | .ok () => return
  | .error e => reject e

end GraphLowering
