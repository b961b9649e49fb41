import GraphLowering.Edit

/-!
# Topological order

The nodes of a graph in an order in which every edge leads forward. Nodes are taken one by one: of
the nodes to which no edge leads from a node that is not yet taken, the one with the smallest number
comes next.

An edge can lead to a node that is not there any more; such a node is ordered with the others. The
order is complete if it is as long as the list of the nodes.
-/

namespace GraphLowering

/-- A topological order in the making. -/
structure Sweep where
  /-- The number of edges that lead to a node from nodes that are not yet taken. -/
  degree : Table Nat
  /-- The nodes that can be taken next, in ascending order. -/
  ready : List NodeId
  /-- The nodes that have been taken. -/
  taken : List NodeId

namespace Sweep

def insertReady (id : NodeId) : List NodeId → List NodeId
  | [] => [id]
  | head :: rest =>
    if id.index < head.index then id :: head :: rest
    else if id = head then head :: rest
    else head :: insertReady id rest

def degrees (g : Graph) : Table Nat :=
  let isolated := g.nodes.keys.foldl (fun table id => table.insert id 0) Table.empty
  g.edges.foldl
    (fun table e => table.insert e.target.index ((table.get? e.target.index).getD 0 + 1)) isolated

/-- Nothing is taken; the nodes to which no edge leads are ready. -/
def start (g : Graph) : Sweep :=
  let degree := degrees g
  ⟨degree, (degree.entries.filter (·.2 == 0)).map fun (id, _) => ⟨id⟩, []⟩

/-- One edge less leads to a node, which is ready when no more do. -/
def release (s : Sweep) (target : NodeId) : Except Stop Sweep :=
  match s.degree.get? target.index with
  | none => .ok s
  | some 0 => .error (.fault .inDegree)
  | some (n + 1) =>
    .ok { s with
      degree := s.degree.insert target.index n
      ready := if n = 0 then insertReady target s.ready else s.ready }

/-- Takes nodes while there are ready ones, at most `fuel` of them. -/
def run (g : Graph) : Nat → Sweep → Except Stop (List NodeId)
  | 0, s => .ok s.taken
  | fuel + 1, s =>
    match s.ready with
    | [] => .ok s.taken
    | id :: rest => do
      run g fuel (← (g.successors id).foldlM release { s with ready := rest, taken := s.taken ++ [id] })

end Sweep

namespace Graph

/-- The nodes in topological order, the smallest first where there is a choice. -/
def topologicalOrder (g : Graph) : Except Stop (List NodeId) := do
  let start := Sweep.start g
  let order ← Sweep.run g start.degree.size start
  if order.length = g.nodes.size then
    .ok order
  else
    .error (.rejected (.graph (.cycle order.length g.nodes.size)))

def composites (g : Graph) : Except Stop (List NodeId) := do
  let order ← g.topologicalOrder
  let nodes ← order.mapM fun id =>
    match g.node? id with
    | some node => .ok (id, node)
    | none => .error (.fault .deadNode)
  return (nodes.filter fun (_, node) => node.kind.isComposite).map (·.1)

end Graph

end GraphLowering
