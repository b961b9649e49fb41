import GraphLowering.Graph.Order
import GraphLowering.Lowering.BatchNorm
import GraphLowering.Lowering.Convolution
import GraphLowering.Lowering.TransposedConvolution

/-!
# Replacing composites

`Edit.lower` replaces a detached composite by its chain of primitive operators. If that is refused,
everything the lowering added is dropped and the composite is put back. `Edit.lowerNode` detaches a
node and replaces it, and `Edit.lowerGraph` does so for all composites of a graph in topological
order.
-/

namespace GraphLowering

/-- Replaces a detached composite. If that is refused, what was added stays. -/
def Composite.lower (op : Composite) (d : Detachment) (options : Options) : Edit Lowered :=
  match op with
  | .batchNorm n => n.lower d
  | .convolution n => n.lower d options
  | .transposedConvolution n => n.lower d options

namespace Edit

/-- The result of a computation, or the error with which it was rejected. What it did stays done. -/
def attempt {α : Type} (edit : Edit α) : Edit (Except LowerError α) := fun s =>
  match edit s with
  | .ok a s => .ok (.ok a) s
  | .error (.rejected e) s => .ok (.error e) s
  | .error (.fault f) s => .error (.fault f) s

def lower (op : Composite) (d : Detachment) (options : Options) : Edit Lowered := do
  match ← attempt (op.lower d options) with
  | .ok result =>
    note (.lowered op.name d.name result.nodes.length)
    return result
  | .error e =>
    note (.notLowered op.name d.name e)
    reattach (.composite op) d
    reject e

/-- Replaces a composite of the graph, or leaves it in its place. -/
def lowerNode (id : NodeId) (options : Options) : Edit Lowered := do
  match (← graph).node? id with
  | none => reject (.graph (.unknownNode id))
  | some node =>
    match node.kind with
    | .composite op =>
      let (_, d) ← detach id
      lower op d options
    | kind => reject (.precondition kind.label (.notComposite id node.name))

/-- Replaces all composites of the graph in topological order. At the first that is refused it
stops; those before it stay replaced. -/
def lowerGraph (options : Options) : Edit Report := do
  match (← graph).composites with
  | .error stop => throw stop
  | .ok ids => ids.foldlM (fun report id => do return report.add (← lowerNode id options)) .empty

end Edit

end GraphLowering
