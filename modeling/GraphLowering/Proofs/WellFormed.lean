import GraphLowering.Graph.Detachment
import GraphLowering.Graph.Lemmas

/-!
# The invariant of a graph

The tables of a graph depend on each other. `Graph.WellFormed` says how: the index finds exactly the
registered names, a node is stored under its own number and names registered tensors only, operators
keep the contracts of their kinds, a node in the graph holds the claim to every tensor it produces,
and edges join nodes of the graph, each edge once.

A claim outlives its node, so the table of producers has entries that point to no node. The
invariant says of these what later changes rely on: their node had a number that will not be given
again, and their tensor is registered (`recorded`).

Each elementary change of a graph keeps the invariant (`WellFormed.pushTensor`,
`WellFormed.pushNode`, `WellFormed.addEdge`, `WellFormed.eraseNode`).
-/

namespace GraphLowering

namespace Graph

def Reads (g : Graph) (id : NodeId) (t : TensorId) : Prop :=
  ∃ node, g.node? id = some node ∧ t ∈ node.kind.inputs

def Dataflow (g : Graph) (e : Edge) : Prop :=
  g.producer? e.tensor = some e.source ∧ g.Reads e.target e.tensor

/-- How the tables of a graph depend on each other. -/
structure WellFormed (g : Graph) : Prop where
  indexed : ∀ name id, g.tensorNamed? name = some id ↔ ∃ t, g.tensor? id = some t ∧ t.name = name
  stored : ∀ id node, g.node? id = some node → node.id = id ∧ id.index < g.nextNode
  registered : ∀ id node, g.node? id = some node →
    ∀ t ∈ node.kind.inputs ++ node.kind.outputs, (g.tensor? t).isSome
  contract : ∀ id node op, g.node? id = some node → node.kind = .operator op → op.check g = .ok ()
  claimed : ∀ id node, g.node? id = some node →
    ∀ t ∈ node.kind.outputs, g.producers.get? t.index = some id
  produced : ∀ id node, g.node? id = some node →
    ∀ t : TensorId, g.producers.get? t.index = some id → t ∈ node.kind.outputs
  recorded : ∀ (t : TensorId) id, g.producers.get? t.index = some id →
    id.index < g.nextNode ∧ t.index < g.tensors.length
  nodup : g.edges.Nodup
  ends : ∀ e ∈ g.edges, g.isLive e.source ∧ g.isLive e.target

theorem Reads.live {g : Graph} {id : NodeId} {t : TensorId} (h : g.Reads id t) : g.isLive id := by
  obtain ⟨node, hnode, _⟩ := h
  exact isLive_of_node? hnode

theorem Dataflow.live {g : Graph} {e : Edge} (h : g.Dataflow e) :
    g.isLive e.source ∧ g.isLive e.target :=
  ⟨(producer?_eq_some.mp h.1).2, h.2.live⟩

end Graph

/-! ## Contracts look at the named tensors only -/

namespace Operator

variable {g g' : Graph} {op : Operator}

theorem operand_congr (h : ∀ t ∈ op.inputs, g'.tensor? t = g.tensor? t) (slot : Nat) :
    op.operand g' slot = op.operand g slot := by
  unfold operand
  cases hslot : op.inputs[slot]? with
  | none => rfl
  | some id => simp only [Graph.tensor, h id (List.mem_of_getElem? hslot)]

theorem result_congr (h : ∀ t ∈ op.outputs, g'.tensor? t = g.tensor? t) :
    op.result g' = op.result g := by
  unfold result
  cases hhead : op.outputs.head? with
  | none => rfl
  | some id => simp only [Graph.tensor, h id (List.mem_of_mem_head? hhead)]

theorem checkInt32Slot_congr (h : ∀ t ∈ op.inputs, g'.tensor? t = g.tensor? t) (slot : Nat) :
    op.checkInt32Slot g' slot = op.checkInt32Slot g slot := by
  unfold checkInt32Slot
  cases hslot : op.inputs[slot]? with
  | none => rfl
  | some id => simp only [Graph.tensor, h id (List.mem_of_getElem? hslot)]

theorem check_congr (h : ∀ t ∈ op.inputs ++ op.outputs, g'.tensor? t = g.tensor? t) :
    op.check g' = op.check g := by
  have hin : ∀ t ∈ op.inputs, g'.tensor? t = g.tensor? t := fun t ht => h t (List.mem_append_left _ ht)
  have hout : ∀ t ∈ op.outputs, g'.tensor? t = g.tensor? t :=
    fun t ht => h t (List.mem_append_right _ ht)
  have hslots : op.checkInt32Slot g' = op.checkInt32Slot g := funext (checkInt32Slot_congr hin)
  have htypes : op.checkTypes g' = op.checkTypes g := by
    unfold checkTypes
    simp only [operand_congr hin, result_congr hout]
  simp only [check, hslots, htypes]

end Operator

namespace Graph

namespace WellFormed

variable {g : Graph}

/-! ## What follows from it -/

theorem producer?_iff (h : g.WellFormed) {t : TensorId} {id : NodeId} :
    g.producer? t = some id ↔ ∃ node, g.node? id = some node ∧ t ∈ node.kind.outputs := by
  rw [producer?_eq_some, isLive_iff]
  constructor
  · rintro ⟨hholder, node, hnode⟩
    exact ⟨node, hnode, h.produced id node hnode t hholder⟩
  · rintro ⟨node, hnode, ht⟩
    exact ⟨h.claimed id node hnode t ht, node, hnode⟩

theorem eq_of_produces (h : g.WellFormed) {t : TensorId} {id id' : NodeId} {node node' : Node}
    (hnode : g.node? id = some node) (ht : t ∈ node.kind.outputs)
    (hnode' : g.node? id' = some node') (ht' : t ∈ node'.kind.outputs) : id = id' :=
  Option.some_inj.mp
    ((h.producer?_iff.mpr ⟨node, hnode, ht⟩).symm.trans (h.producer?_iff.mpr ⟨node', hnode', ht'⟩))

theorem lt_of_live (h : g.WellFormed) {id : NodeId} (hlive : g.isLive id) : id.index < g.nextNode := by
  obtain ⟨node, hnode⟩ := isLive_iff.mp hlive
  exact (h.stored id node hnode).2

theorem tensor_lt (h : g.WellFormed) {id : NodeId} {node : Node} (hnode : g.node? id = some node)
    {t : TensorId} (ht : t ∈ node.kind.inputs ++ node.kind.outputs) : t.index < g.tensors.length := by
  obtain ⟨tensor, htensor⟩ := Option.isSome_iff_exists.mp (h.registered id node hnode t ht)
  exact tensor?_lt htensor

section Composite

variable {id : NodeId} {node : Node} {op : Composite} {t : TensorId}

theorem operand_registered (h : g.WellFormed) (hnode : g.node? id = some node)
    (hkind : node.kind = .composite op) (ht : t ∈ op.inputs) :
    (g.tensor? t).isSome := by
  refine h.registered id node hnode t (List.mem_append_left _ ?_)
  rw [hkind]
  exact ht

theorem operand_lt (h : g.WellFormed) (hnode : g.node? id = some node)
    (hkind : node.kind = .composite op) (ht : t ∈ op.inputs) :
    t.index < g.tensors.length := by
  refine h.tensor_lt hnode (List.mem_append_left _ ?_)
  rw [hkind]
  exact ht

theorem output_lt (h : g.WellFormed) (hnode : g.node? id = some node)
    (hkind : node.kind = .composite op) :
    op.output.index < g.tensors.length := by
  refine h.tensor_lt hnode (List.mem_append_right _ ?_)
  rw [hkind]
  exact List.mem_singleton_self _

theorem producer?_output (h : g.WellFormed) (hnode : g.node? id = some node)
    (hkind : node.kind = .composite op) :
    g.producer? op.output = some id := by
  refine h.producer?_iff.mpr ⟨node, hnode, ?_⟩
  rw [hkind]
  exact List.mem_singleton_self _

theorem eq_output (h : g.WellFormed) (hnode : g.node? id = some node)
    (hkind : node.kind = .composite op) (ht : g.producer? t = some id) : t = op.output := by
  obtain ⟨other, hother, hmem⟩ := h.producer?_iff.mp ht
  rw [hnode] at hother
  cases hother
  rw [hkind] at hmem
  exact List.mem_singleton.mp hmem

end Composite

theorem unnamed_nextNode (h : g.WellFormed) {id : NodeId} (hid : g.nextNode ≤ id.index) :
    g.node? id = none := by
  cases hnode : g.node? id with
  | none => rfl
  | some node => exact absurd (h.stored id node hnode).2 (Nat.not_lt.mpr hid)

/-! ## Elementary changes keep it -/

theorem empty : Graph.empty.WellFormed where
  indexed name id := by
    constructor
    · intro h
      cases h
    · rintro ⟨t, ht, _⟩
      cases ht
  stored _ _ h := nomatch h
  registered _ _ h := nomatch h
  contract _ _ _ h := nomatch h
  claimed _ _ h := nomatch h
  produced _ _ h := nomatch h
  recorded _ _ h := nomatch h
  nodup := List.nodup_nil
  ends _ h := nomatch h

theorem indexed_pushTensor (h : g.WellFormed) {t : Tensor} (hfresh : g.tensorNamed? t.name = none)
    (name : String) (id : TensorId) :
    (g.pushTensor t).tensorNamed? name = some id ↔
    ∃ x, (g.pushTensor t).tensor? id = some x ∧ x.name = name := by
  rw [tensorNamed?_pushTensor, tensor?_pushTensor]
  by_cases hname : name = t.name
  · subst hname
    rw [if_pos rfl, Option.some_inj]
    constructor
    · rintro rfl
      exact ⟨t, if_pos rfl, rfl⟩
    · rintro ⟨x, hx, hxname⟩
      split at hx
      · next hid => exact TensorId.index_inj.mp hid.symm
      · have hfound := (h.indexed t.name id).mpr ⟨x, hx, hxname⟩
        rw [hfresh] at hfound
        cases hfound
  · rw [if_neg hname, h.indexed]
    by_cases hid : id.index = g.tensors.length
    · rw [if_pos hid]
      constructor
      · rintro ⟨x, hx, _⟩
        have := tensor?_lt hx
        omega
      · rintro ⟨x, hx, hxname⟩
        cases hx
        exact absurd hxname.symm hname
    · rw [if_neg hid]

theorem pushTensor (h : g.WellFormed) {t : Tensor} (hfresh : g.tensorNamed? t.name = none) :
    (g.pushTensor t).WellFormed := by
  have hkeep : ∀ id : TensorId, (g.tensor? id).isSome → (g.pushTensor t).tensor? id = g.tensor? id := by
    intro id hid
    obtain ⟨x, hx⟩ := Option.isSome_iff_exists.mp hid
    rw [tensor?_pushTensor, if_neg (Nat.ne_of_lt (tensor?_lt hx))]
  exact
    { indexed := h.indexed_pushTensor hfresh
      stored := h.stored
      registered := by
        intro id node hnode x hx
        have hsome := h.registered id node hnode x hx
        rwa [hkeep x hsome]
      contract := by
        intro id node op hnode hop
        rw [Operator.check_congr fun x hx =>
          hkeep x (h.registered id node hnode x (by rw [hop]; exact hx))]
        exact h.contract id node op hnode hop
      claimed := h.claimed
      produced := h.produced
      recorded := by
        intro x id hx
        have := h.recorded x id hx
        rw [length_pushTensor]
        exact ⟨this.1, by omega⟩
      nodup := h.nodup
      ends := h.ends }

/-- A node is added that claims tensors which no other node of the graph produces. -/
theorem pushNode (h : g.WellFormed) {name : String} {kind : NodeKind} {lowered : Bool}
    (hregistered : ∀ t ∈ kind.inputs ++ kind.outputs, (g.tensor? t).isSome)
    (hcontract : ∀ op, kind = .operator op → op.check g = .ok ())
    (hfree : ∀ t ∈ kind.outputs, g.producer? t = none) : (g.pushNode name kind lowered).WellFormed where
  indexed := h.indexed
  stored id node hnode := by
    rw [pushNode_nextNode]
    rcases node?_of_pushNode hnode with ⟨rfl, rfl⟩ | ⟨_, hold⟩
    · exact ⟨rfl, Nat.lt_succ_self _⟩
    · have := h.stored id node hold
      exact ⟨this.1, by omega⟩
  registered id node hnode := by
    rcases node?_of_pushNode hnode with ⟨_, rfl⟩ | ⟨_, hold⟩
    · exact hregistered
    · exact h.registered id node hold
  contract id node op hnode hop := by
    have hcheck : op.check (g.pushNode name kind lowered) = op.check g :=
      Operator.check_congr fun t _ => rfl
    rw [hcheck]
    rcases node?_of_pushNode hnode with ⟨_, rfl⟩ | ⟨_, hold⟩
    · exact hcontract op hop
    · exact h.contract id node op hold hop
  claimed id node hnode t ht := by
    rw [get?_producers_pushNode]
    rcases node?_of_pushNode hnode with ⟨rfl, rfl⟩ | ⟨_, hold⟩
    · exact if_pos ht
    · have hholder := h.claimed id node hold t ht
      have hother : t ∉ kind.outputs :=
        fun hmem => producer?_eq_none.mp (hfree t hmem) id hholder (isLive_of_node? hold)
      rw [if_neg hother, hholder]
  produced id node hnode t hholder := by
    rw [get?_producers_pushNode] at hholder
    rcases node?_of_pushNode hnode with ⟨rfl, rfl⟩ | ⟨hne, hold⟩
    · split at hholder
      · next ht => exact ht
      · -- no record names a node that is yet to come
        exact absurd (h.recorded t _ hholder).1 (Nat.lt_irrefl _)
    · split at hholder
      · exact absurd (Option.some.inj hholder).symm hne
      · exact h.produced id node hold t hholder
  recorded t id hholder := by
    rw [get?_producers_pushNode] at hholder
    rw [pushNode_nextNode, pushNode_tensors]
    split at hholder
    · next ht =>
      cases hholder
      obtain ⟨x, hx⟩ := Option.isSome_iff_exists.mp (hregistered t (List.mem_append_right _ ht))
      exact ⟨Nat.lt_succ_self _, tensor?_lt hx⟩
    · have := h.recorded t id hholder
      exact ⟨by omega, this.2⟩
  nodup := h.nodup
  ends e he := by
    have hlive : ∀ id, g.isLive id → (g.pushNode name kind lowered).isLive id := by
      intro id hid
      rw [isLive_eq_isSome, node?_pushNode_of_lt (h.lt_of_live hid)]
      exact hid
    exact ⟨hlive _ (h.ends e he).1, hlive _ (h.ends e he).2⟩

theorem addEdge (h : g.WellFormed) {e : Edge} (hsource : g.isLive e.source)
    (htarget : g.isLive e.target) :
    (g.addEdge e).WellFormed where
  indexed := by simpa using h.indexed
  stored := by simpa using h.stored
  registered := by simpa using h.registered
  contract id node op hnode hop := by
    rw [Operator.check_congr fun t _ => tensor?_addEdge g e t]
    rw [node?_addEdge] at hnode
    exact h.contract id node op hnode hop
  claimed := by simpa using h.claimed
  produced := by simpa using h.produced
  recorded := by simpa using h.recorded
  nodup := nodup_edges_addEdge h.nodup
  ends e' he' := by
    rw [isLive_addEdge, isLive_addEdge]
    rcases mem_edges_addEdge.mp he' with rfl | he'
    · exact ⟨hsource, htarget⟩
    · exact h.ends e' he'

theorem setInputs (h : g.WellFormed) (inputs : List TensorId) : { g with inputs }.WellFormed :=
  ⟨h.indexed, h.stored, h.registered, h.contract, h.claimed, h.produced, h.recorded, h.nodup, h.ends⟩

theorem setOutputs (h : g.WellFormed) (outputs : List TensorId) : { g with outputs }.WellFormed :=
  ⟨h.indexed, h.stored, h.registered, h.contract, h.claimed, h.produced, h.recorded, h.nodup, h.ends⟩

end WellFormed

/-! ## Taking a node out -/

theorem node?_eraseNode (g : Graph) (id n : NodeId) :
    (g.eraseNode id).node? n = if n = id then none else g.node? n := by
  show (g.nodes.erase id.index).get? n.index = _
  rw [Table.get?_erase]
  simp only [NodeId.index_inj]
  rfl

theorem node?_of_eraseNode {g : Graph} {id n : NodeId} {node : Node}
    (h : (g.eraseNode id).node? n = some node) :
    n ≠ id ∧ g.node? n = some node := by
  rw [node?_eraseNode] at h
  split at h
  · cases h
  · next hne => exact ⟨hne, h⟩

theorem isLive_eraseNode {g : Graph} {id n : NodeId} :
    (g.eraseNode id).isLive n ↔ g.isLive n ∧ n ≠ id := by
  rw [isLive_eq_isSome, node?_eraseNode]
  by_cases hn : n = id
  · simp [hn]
  · simp [hn, isLive_eq_isSome]

theorem producer?_eraseNode {g : Graph} {id source : NodeId} {t : TensorId} :
    (g.eraseNode id).producer? t = some source ↔ g.producer? t = some source ∧ source ≠ id := by
  rw [producer?_eq_some, producer?_eq_some, isLive_eraseNode, and_assoc]
  rfl

theorem reads_eraseNode {g : Graph} {id reader : NodeId} {t : TensorId} :
    (g.eraseNode id).Reads reader t ↔ g.Reads reader t ∧ reader ≠ id := by
  unfold Reads
  rw [node?_eraseNode]
  by_cases hreader : reader = id
  · simp [hreader]
  · simp [hreader]

theorem mem_edges_eraseNode {g : Graph} {id : NodeId} {e : Edge} :
    e ∈ (g.eraseNode id).edges ↔ e ∈ g.edges ∧ e.target ≠ id ∧ e.source ≠ id := by
  simp [eraseNode]

theorem WellFormed.eraseNode {g : Graph} (h : g.WellFormed) (id : NodeId) :
    (g.eraseNode id).WellFormed where
  indexed := h.indexed
  stored n node hnode := h.stored n node (node?_of_eraseNode hnode).2
  registered n node hnode := h.registered n node (node?_of_eraseNode hnode).2
  contract n node op hnode hop := by
    have hcheck : op.check (g.eraseNode id) = op.check g := Operator.check_congr fun t _ => rfl
    rw [hcheck]
    exact h.contract n node op (node?_of_eraseNode hnode).2 hop
  claimed n node hnode := h.claimed n node (node?_of_eraseNode hnode).2
  produced n node hnode := h.produced n node (node?_of_eraseNode hnode).2
  recorded := h.recorded
  nodup := h.nodup.filter _
  ends e he := by
    obtain ⟨hmem, htarget, hsource⟩ := mem_edges_eraseNode.mp he
    exact ⟨isLive_eraseNode.mpr ⟨(h.ends e hmem).1, hsource⟩,
      isLive_eraseNode.mpr ⟨(h.ends e hmem).2, htarget⟩⟩

end Graph

end GraphLowering
