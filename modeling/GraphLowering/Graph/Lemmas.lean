import GraphLowering.Graph.Basic

/-!
# What the elementary changes of a graph do

For each elementary change, what becomes of the tensors, the nodes, the edges and the producers.
-/

namespace GraphLowering

theorem NodeId.index_inj {a b : NodeId} : a.index = b.index ↔ a = b :=
  ⟨congrArg mk, congrArg index⟩

theorem TensorId.index_inj {a b : TensorId} : a.index = b.index ↔ a = b :=
  ⟨congrArg mk, congrArg index⟩

namespace Graph

/-! ## Views -/

theorem isLive_iff {g : Graph} {id : NodeId} : g.isLive id ↔ ∃ node, g.node? id = some node :=
  Option.isSome_iff_exists

theorem isLive_of_node? {g : Graph} {id : NodeId} {node : Node} (h : g.node? id = some node) :
    g.isLive id :=
  isLive_iff.mpr ⟨node, h⟩

theorem isLive_eq_isSome (g : Graph) (id : NodeId) : g.isLive id = (g.node? id).isSome :=
  rfl

theorem producer?_eq_some {g : Graph} {t : TensorId} {id : NodeId} :
    g.producer? t = some id ↔ g.producers.get? t.index = some id ∧ g.isLive id := by
  unfold producer?
  cases h : g.producers.get? t.index with
  | none => simp
  | some holder =>
    simp only [Option.filter_eq_some_iff, Option.some.injEq]

theorem producer?_eq_none {g : Graph} {t : TensorId} :
    g.producer? t = none ↔ ∀ id, g.producers.get? t.index = some id → ¬ g.isLive id := by
  rw [Option.eq_none_iff_forall_ne_some]
  simp only [ne_eq, producer?_eq_some, not_and]

theorem tensor?_lt {g : Graph} {id : TensorId} {t : Tensor} (h : g.tensor? id = some t) :
    id.index < g.tensors.length :=
  (List.getElem?_eq_some_iff.mp h).1

/-! ## One more tensor -/

@[simp] theorem pushTensor_nodes (g : Graph) (tensor : Tensor) :
    (g.pushTensor tensor).nodes = g.nodes := rfl

@[simp] theorem pushTensor_edges (g : Graph) (tensor : Tensor) :
    (g.pushTensor tensor).edges = g.edges := rfl

@[simp] theorem pushTensor_producers (g : Graph) (tensor : Tensor) :
    (g.pushTensor tensor).producers = g.producers := rfl

@[simp] theorem pushTensor_nextNode (g : Graph) (tensor : Tensor) :
    (g.pushTensor tensor).nextNode = g.nextNode :=
  rfl

@[simp] theorem pushTensor_inputs (g : Graph) (tensor : Tensor) :
    (g.pushTensor tensor).inputs = g.inputs := rfl

@[simp] theorem pushTensor_outputs (g : Graph) (tensor : Tensor) :
    (g.pushTensor tensor).outputs = g.outputs := rfl

@[simp] theorem node?_pushTensor (g : Graph) (tensor : Tensor) (id : NodeId) :
    (g.pushTensor tensor).node? id = g.node? id := rfl

@[simp] theorem isLive_pushTensor (g : Graph) (tensor : Tensor) (id : NodeId) :
    (g.pushTensor tensor).isLive id = g.isLive id := rfl

@[simp] theorem producer?_pushTensor (g : Graph) (tensor : Tensor) (t : TensorId) :
    (g.pushTensor tensor).producer? t = g.producer? t := rfl

@[simp] theorem length_pushTensor (g : Graph) (tensor : Tensor) :
    (g.pushTensor tensor).tensors.length = g.tensors.length + 1 :=
  List.length_append

theorem tensorNamed?_pushTensor (g : Graph) (tensor : Tensor) (name : String) :
    (g.pushTensor tensor).tensorNamed? name =
      if name = tensor.name then some ⟨g.tensors.length⟩ else g.tensorNamed? name :=
  NameIndex.find?_insert g.index tensor.name name ⟨g.tensors.length⟩

theorem tensor?_pushTensor (g : Graph) (tensor : Tensor) (id : TensorId) :
    (g.pushTensor tensor).tensor? id = if id.index = g.tensors.length
      then some tensor else g.tensor? id := by
  unfold tensor? pushTensor
  by_cases h : id.index = g.tensors.length
  · simp [h]
  · rcases Nat.lt_or_gt_of_ne h with hlt | hgt
    · simp [h, List.getElem?_append_left hlt]
    · have hnone : g.tensors[id.index]? = none := List.getElem?_eq_none (Nat.le_of_lt hgt)
      rw [if_neg h, hnone]
      apply List.getElem?_eq_none
      simp only [List.length_append, List.length_singleton]
      omega

/-! ## An edge -/

@[simp] theorem addEdge_tensors (g : Graph) (edge : Edge) : (g.addEdge edge).tensors = g.tensors := by
  unfold addEdge
  split <;> rfl

@[simp] theorem addEdge_nodes (g : Graph) (edge : Edge) : (g.addEdge edge).nodes = g.nodes := by
  unfold addEdge
  split <;> rfl

@[simp] theorem addEdge_producers (g : Graph) (edge : Edge) :
    (g.addEdge edge).producers = g.producers := by
  unfold addEdge
  split <;> rfl

@[simp] theorem addEdge_nextNode (g : Graph) (edge : Edge) :
    (g.addEdge edge).nextNode = g.nextNode := by
  unfold addEdge
  split <;> rfl

@[simp] theorem addEdge_index (g : Graph) (edge : Edge) : (g.addEdge edge).index = g.index := by
  unfold addEdge
  split <;> rfl

@[simp] theorem addEdge_inputs (g : Graph) (edge : Edge) : (g.addEdge edge).inputs = g.inputs := by
  unfold addEdge
  split <;> rfl

@[simp] theorem addEdge_outputs (g : Graph) (edge : Edge) : (g.addEdge edge).outputs = g.outputs := by
  unfold addEdge
  split <;> rfl

@[simp] theorem tensor?_addEdge (g : Graph) (edge : Edge) (id : TensorId) :
    (g.addEdge edge).tensor? id = g.tensor? id := by
  simp [tensor?]

@[simp] theorem tensorNamed?_addEdge (g : Graph) (edge : Edge) (name : String) :
    (g.addEdge edge).tensorNamed? name = g.tensorNamed? name := by
  simp [tensorNamed?]

@[simp] theorem node?_addEdge (g : Graph) (edge : Edge) (id : NodeId) :
    (g.addEdge edge).node? id = g.node? id := by
  simp [node?]

@[simp] theorem isLive_addEdge (g : Graph) (edge : Edge) (id : NodeId) :
    (g.addEdge edge).isLive id = g.isLive id := by
  simp [isLive_eq_isSome]

@[simp] theorem producer?_addEdge (g : Graph) (edge : Edge) (t : TensorId) :
    (g.addEdge edge).producer? t = g.producer? t := by
  unfold producer?
  rw [addEdge_producers]
  congr 1
  funext id
  exact isLive_addEdge g edge id

theorem mem_edges_addEdge {g : Graph} {edge e : Edge} :
    e ∈ (g.addEdge edge).edges ↔ e = edge ∨ e ∈ g.edges := by
  unfold addEdge
  split
  · next h =>
    constructor
    · exact .inr
    · rintro (rfl | he)
      · exact h
      · exact he
  · simp [or_comm]

theorem edges_extend_addEdge (g : Graph) (edge : Edge) : g.edges <+: (g.addEdge edge).edges := by
  unfold addEdge
  split
  · exact List.prefix_rfl
  · exact List.prefix_append _ _

theorem nodup_edges_addEdge {g : Graph} {edge : Edge} (h : g.edges.Nodup) :
    (g.addEdge edge).edges.Nodup := by
  unfold addEdge
  split
  · exact h
  · next hnot =>
    refine List.nodup_append.mpr ⟨h, List.pairwise_singleton _ _, ?_⟩
    intro a ha b hb
    rw [List.mem_singleton.mp hb]
    rintro rfl
    exact hnot ha

theorem addEdge_eq (g : Graph) (edge : Edge) :
    g.addEdge edge = { g with edges := (g.addEdge edge).edges } := by
  unfold addEdge
  split <;> rfl

/-! ## Any number of edges -/

section Edges

variable {α : Type} {g : Graph} {xs : List α}

theorem foldl_addEdge_eq (edge : α → Edge) (xs : List α) (g : Graph) :
    xs.foldl (fun g x => g.addEdge (edge x)) g =
      { g with edges := (xs.foldl (fun g x => g.addEdge (edge x)) g).edges } := by
  induction xs generalizing g with
  | nil => rfl
  | cons x rest ih =>
    rw [List.foldl_cons, ih, addEdge_eq g (edge x)]

theorem mem_edges_foldl_addEdge (edge : α → Edge) {e : Edge} :
    e ∈ (xs.foldl (fun g x => g.addEdge (edge x)) g).edges ↔ e ∈ g.edges ∨ ∃ x ∈ xs, e = edge x := by
  induction xs generalizing g with
  | nil => simp
  | cons x rest ih =>
    rw [List.foldl_cons, ih, mem_edges_addEdge]
    simp only [List.mem_cons, exists_eq_or_imp]
    constructor
    · rintro ((he | he) | he)
      · exact .inr (.inl he)
      · exact .inl he
      · exact .inr (.inr he)
    · rintro (he | he | he)
      · exact .inl (.inr he)
      · exact .inl (.inl he)
      · exact .inr he

theorem nodup_edges_foldl_addEdge {edge : α → Edge} (h : g.edges.Nodup) :
    (xs.foldl (fun g x => g.addEdge (edge x)) g).edges.Nodup := by
  induction xs generalizing g with
  | nil => exact h
  | cons x rest ih => exact ih (nodup_edges_addEdge h)

end Edges

/-! ## Claims and nodes -/

theorem get?_foldl_insert (id : NodeId) (tensors : List TensorId) (table : Table NodeId) (key : Nat) :
    (tensors.foldl (fun table t => table.insert t.index id) table).get? key =
      if ⟨key⟩ ∈ tensors then some id else table.get? key := by
  induction tensors generalizing table with
  | nil => simp
  | cons t rest ih =>
    have hkey : key = t.index ↔ (⟨key⟩ : TensorId) = t := TensorId.index_inj
    rw [List.foldl_cons, ih, Table.get?_insert]
    by_cases h : (⟨key⟩ : TensorId) ∈ rest
    · simp [h]
    · simp [h, hkey]

theorem get?_producers_claim (g : Graph) (id : NodeId) (tensors : List TensorId) (t : TensorId) :
    (g.claim id tensors).producers.get? t.index = if t ∈ tensors
      then some id else g.producers.get? t.index :=
  get?_foldl_insert id tensors g.producers t.index

@[simp] theorem pushNode_tensors (g : Graph) (name : String) (kind : NodeKind) (lowered : Bool) :
    (g.pushNode name kind lowered).tensors = g.tensors := rfl

@[simp] theorem pushNode_edges (g : Graph) (name : String) (kind : NodeKind) (lowered : Bool) :
    (g.pushNode name kind lowered).edges = g.edges := rfl

@[simp] theorem pushNode_nextNode (g : Graph) (name : String) (kind : NodeKind) (lowered : Bool) :
    (g.pushNode name kind lowered).nextNode = g.nextNode + 1 := rfl

@[simp] theorem pushNode_inputs (g : Graph) (name : String) (kind : NodeKind) (lowered : Bool) :
    (g.pushNode name kind lowered).inputs = g.inputs := rfl

@[simp] theorem pushNode_outputs (g : Graph) (name : String) (kind : NodeKind) (lowered : Bool) :
    (g.pushNode name kind lowered).outputs = g.outputs := rfl

@[simp] theorem tensor?_pushNode (g : Graph) (name : String)
    (kind : NodeKind) (lowered : Bool) (id : TensorId) :
    (g.pushNode name kind lowered).tensor? id = g.tensor? id := rfl

@[simp] theorem tensorNamed?_pushNode (g : Graph) (name : String)
    (kind : NodeKind) (lowered : Bool) (n : String) :
    (g.pushNode name kind lowered).tensorNamed? n = g.tensorNamed? n := rfl

theorem node?_pushNode (g : Graph) (name : String) (kind : NodeKind) (lowered : Bool) (id : NodeId) :
    (g.pushNode name kind lowered).node? id =
      if id.index = g.nextNode then some ⟨⟨g.nextNode⟩, name, kind, lowered⟩ else g.node? id :=
  Table.get?_insert g.nodes g.nextNode id.index _

theorem node?_pushNode_of_lt {g : Graph} {id : NodeId} (h : id.index < g.nextNode) (name : String)
    (kind : NodeKind) (lowered : Bool) : (g.pushNode name kind lowered).node? id = g.node? id := by
  rw [node?_pushNode, if_neg (Nat.ne_of_lt h)]

theorem node?_of_pushNode {g : Graph} {name : String} {kind : NodeKind} {lowered : Bool}
    {id : NodeId} {node : Node} (h : (g.pushNode name kind lowered).node? id = some node) :
    id = ⟨g.nextNode⟩ ∧ node = ⟨⟨g.nextNode⟩, name, kind, lowered⟩ ∨
    id ≠ ⟨g.nextNode⟩ ∧ g.node? id = some node := by
  rw [node?_pushNode] at h
  split at h
  · next hid => exact .inl ⟨NodeId.index_inj.mp hid, (Option.some.inj h).symm⟩
  · next hid => exact .inr ⟨fun heq => hid (NodeId.index_inj.mpr heq), h⟩

theorem get?_producers_pushNode (g : Graph) (name : String) (kind : NodeKind) (lowered : Bool)
    (t : TensorId) :
    (g.pushNode name kind lowered).producers.get? t.index =
      if t ∈ kind.outputs then some ⟨g.nextNode⟩ else g.producers.get? t.index :=
  get?_foldl_insert ⟨g.nextNode⟩ kind.outputs g.producers t.index

end Graph

end GraphLowering
