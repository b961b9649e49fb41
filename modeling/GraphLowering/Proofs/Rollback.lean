import GraphLowering.Proofs.Emission

/-!
# Putting a detached node back

A node is taken out of a graph, things are added to the graph, and then what was added is dropped
and the node is put back. The graph then holds what it held before (`Graph.SameContents`): all that
was added is told by its numbers, so dropping it loses nothing else, and a tensor that an added node
took over had been claimed by the detached node or by none.

The edges need an assumption on the graph before: they lead along the flow of data. Otherwise an
edge that was added for a reader of the detached node may join two nodes that were there before, and
would stay (`Graph.mem_edges_of_old`).
-/

namespace GraphLowering

namespace Graph

/-- Graphs that hold the same tensors, names, nodes, edges and producers, and have the same inputs
and outputs. The order of the edges and the number of the next node may differ. -/
structure SameContents (g g' : Graph) : Prop where
  tensors : g'.tensors = g.tensors
  names : ∀ name, g'.tensorNamed? name = g.tensorNamed? name
  nodes : g'.nodes = g.nodes
  edges : g'.edges.Perm g.edges
  producers : ∀ t, g'.producer? t = g.producer? t
  inputs : g'.inputs = g.inputs
  outputs : g'.outputs = g.outputs

/-! ## The two steps of putting back -/

section Views

variable {g : Graph} {d : Detachment} {kind : NodeKind}

theorem putBack_eq (g : Graph) (kind : NodeKind) (d : Detachment) :
    g.putBack kind d = { g.claim d.node kind.outputs with
      nodes := g.nodes.insert d.node.index ⟨d.node, d.name, kind, d.lowered⟩
      edges := (g.putBack kind d).edges } := by
  unfold putBack
  rw [foldl_addEdge_eq fun p : TensorId × NodeId => ⟨d.node, p.2, p.1⟩,
    foldl_addEdge_eq fun p : NodeId × TensorId => ⟨p.1, d.node, p.2⟩]

theorem mem_edges_putBack {e : Edge} :
    e ∈ (g.putBack kind d).edges ↔ e ∈ g.edges ∨ (∃ p ∈ d.predecessors, e = ⟨p.1, d.node, p.2⟩) ∨
      ∃ p ∈ d.successors, e = ⟨d.node, p.2, p.1⟩ := by
  unfold putBack
  rw [mem_edges_foldl_addEdge fun p : TensorId × NodeId => ⟨d.node, p.2, p.1⟩,
    mem_edges_foldl_addEdge fun p : NodeId × TensorId => ⟨p.1, d.node, p.2⟩, or_assoc]
  rfl

theorem nodup_edges_putBack (h : g.edges.Nodup) : (g.putBack kind d).edges.Nodup :=
  nodup_edges_foldl_addEdge (nodup_edges_foldl_addEdge h)

theorem node?_putBack (n : NodeId) :
    (g.putBack kind d).node? n = if n = d.node then some ⟨d.node, d.name, kind, d.lowered⟩
      else g.node? n := by
  rw [putBack_eq]
  show (g.nodes.insert d.node.index _).get? n.index = _
  rw [Table.get?_insert]
  simp only [NodeId.index_inj]
  rfl

theorem get?_producers_putBack (t : TensorId) :
    (g.putBack kind d).producers.get? t.index = if t ∈ kind.outputs
      then some d.node else g.producers.get? t.index := by
  rw [putBack_eq]
  exact get?_producers_claim g d.node kind.outputs t

theorem node?_cutBack (n : NodeId) :
    (g.cutBack d).node? n = if n.index < d.firstNew then g.node? n else none := by
  show (g.nodes.filter fun id _ => decide (id < d.firstNew)).get? n.index = _
  rw [Table.get?_filter]
  show _ = if n.index < d.firstNew then g.nodes.get? n.index else none
  cases g.nodes.get? n.index <;> simp [Option.filter]

theorem get?_producers_cutBack {t : TensorId} {n : NodeId} :
    (g.cutBack d).producers.get? t.index = some n ↔
      g.producers.get? t.index = some n ∧ t.index < d.tensorCount ∧ n.index < d.firstNew := by
  show (g.producers.filter _).get? t.index = some n ↔ _
  rw [Table.get?_filter]
  simp [Option.filter_eq_some_iff]

theorem find?_foldl_erase (ts : List Tensor) (index : NameIndex) (name : String) :
    (ts.foldl (fun index t => index.erase t.name) index).find? name =
      if ∃ t ∈ ts, t.name = name then none else index.find? name := by
  induction ts generalizing index with
  | nil => simp
  | cons t rest ih =>
    rw [List.foldl_cons, ih, NameIndex.find?_erase]
    by_cases hrest : ∃ t ∈ rest, t.name = name
    · simp [hrest]
    · by_cases hname : name = t.name
      · simp [hname]
      · simp [hrest, hname, Ne.symm hname]

theorem mem_drop_tensors {first : Nat} {t : Tensor} :
    t ∈ g.tensors.drop first ↔ ∃ x : TensorId, first ≤ x.index ∧ g.tensor? x = some t := by
  rw [List.mem_iff_getElem?]
  constructor
  · rintro ⟨i, hi⟩
    rw [List.getElem?_drop] at hi
    exact ⟨⟨first + i⟩, Nat.le_add_right _ _, hi⟩
  · rintro ⟨⟨i⟩, hle, hi⟩
    refine ⟨i - first, ?_⟩
    rw [List.getElem?_drop, Nat.add_sub_cancel' hle]
    exact hi

theorem tensorNamed?_cutBack (name : String) :
    (g.cutBack d).tensorNamed? name =
      if ∃ t ∈ g.tensors.drop d.tensorCount, t.name = name then none else g.tensorNamed? name :=
  find?_foldl_erase _ _ _

end Views

/-! ## The neighbours of a node -/

section Detachment

variable {g : Graph} {id : NodeId} {node : Node}

theorem mem_predecessors_detachment {source : NodeId} {t : TensorId} :
    (source, t) ∈ (g.detachment id node).predecessors ↔ ⟨source, id, t⟩ ∈ g.edges := by
  simp only [detachment, List.mem_map, List.mem_filter, beq_iff_eq, Prod.mk.injEq]
  constructor
  · rintro ⟨⟨_, _, _⟩, ⟨he, rfl⟩, rfl, rfl⟩
    exact he
  · intro he
    exact ⟨_, ⟨he, rfl⟩, rfl, rfl⟩

theorem mem_successors_detachment {t : TensorId} {target : NodeId} :
    (t, target) ∈ (g.detachment id node).successors ↔ ⟨id, target, t⟩ ∈ g.edges ∧ target ≠ id := by
  simp only [detachment, List.mem_map, List.mem_filter, Bool.and_eq_true,
    bne_iff_ne, beq_iff_eq, Prod.mk.injEq]
  constructor
  · rintro ⟨⟨_, _, _⟩, ⟨he, hne, rfl⟩, rfl, rfl⟩
    exact ⟨he, hne⟩
  · rintro ⟨he, hne⟩
    exact ⟨_, ⟨he, hne, rfl⟩, rfl, rfl⟩

theorem mem_edges_putBack_detachment {g' : Graph} {kind : NodeKind} {e : Edge} :
    e ∈ (g'.putBack kind (g.detachment id node)).edges ↔
      e ∈ g'.edges ∨ e ∈ g.edges ∧ (e.target = id ∨ e.source = id) := by
  rw [mem_edges_putBack]
  obtain ⟨source, target, t⟩ := e
  constructor
  · rintro (he | ⟨⟨s, x⟩, hmem, heq⟩ | ⟨⟨x, c⟩, hmem, heq⟩)
    · exact .inl he
    · cases heq
      exact .inr ⟨mem_predecessors_detachment.mp hmem, .inl rfl⟩
    · cases heq
      exact .inr ⟨(mem_successors_detachment.mp hmem).1, .inr rfl⟩
  · rintro (he | ⟨he, hend⟩)
    · exact .inl he
    · -- an edge of the node to itself is one of its incoming edges
      by_cases htarget : target = id
      · subst htarget
        exact .inr (.inl ⟨(source, t), mem_predecessors_detachment.mpr he, rfl⟩)
      · have hsource : source = id := hend.resolve_left htarget
        subst hsource
        exact .inr (.inr ⟨(t, target), mem_successors_detachment.mpr ⟨he, htarget⟩, rfl⟩)

end Detachment

/-! ## What comes back -/

/-- The graph in which a node that was taken out of `before` is put back, and what was added since
is dropped. -/
def rolledBack (before : Graph) (id : NodeId) (node : Node) (g : Graph) : Graph :=
  (g.cutBack (before.detachment id node)).putBack node.kind (before.detachment id node)

section Rollback

variable {before g : Graph} {id : NodeId} {node : Node} {allowed : Graph → Edge → Prop}

theorem node?_rolledBack (hwf : before.WellFormed) (hnode : before.node? id = some node)
    (hgrows : Grows allowed (before.eraseNode id) g) (n : NodeId) :
    (before.rolledBack id node g).node? n = before.node? n := by
  have hid : node.id = id := (hwf.stored id node hnode).1
  unfold rolledBack
  rw [node?_putBack, node?_cutBack]
  show (if n = id then some ⟨id, node.name, node.kind, node.lowered⟩
    else if n.index < before.nextNode then g.node? n else none) = _
  by_cases hn : n = id
  · rw [if_pos hn, hn, hnode]
    cases node
    cases hid
    rfl
  · rw [if_neg hn]
    by_cases hold : n.index < before.nextNode
    · rw [if_pos hold, hgrows.node?_of_lt hold, node?_eraseNode, if_neg hn]
    · rw [if_neg hold, hwf.unnamed_nextNode (Nat.le_of_not_lt hold)]

theorem isLive_rolledBack (hwf : before.WellFormed) (hnode : before.node? id = some node)
    (hgrows : Grows allowed (before.eraseNode id) g) (n : NodeId) :
    (before.rolledBack id node g).isLive n = before.isLive n := by
  rw [isLive_eq_isSome, node?_rolledBack hwf hnode hgrows]
  rfl

theorem tensors_rolledBack (hgrows : Grows allowed (before.eraseNode id) g) :
    (before.rolledBack id node g).tensors = before.tensors := by
  unfold rolledBack
  rw [putBack_eq]
  show g.tensors.take before.tensors.length = before.tensors
  exact (List.prefix_iff_eq_take.mp hgrows.tensors_extend).symm

theorem tensor?_rolledBack (hgrows : Grows allowed (before.eraseNode id) g) (t : TensorId) :
    (before.rolledBack id node g).tensor? t = before.tensor? t := by
  unfold tensor?
  rw [tensors_rolledBack hgrows]

theorem nextNode_le_rolledBack (hgrows : Grows allowed (before.eraseNode id) g) :
    before.nextNode ≤ (before.rolledBack id node g).nextNode := by
  unfold rolledBack
  rw [putBack_eq]
  exact hgrows.nextNode_le

/-- A dropped tensor had a name of its own, so the names of the others are still found. -/
theorem tensorNamed?_rolledBack (hwf : before.WellFormed)
    (hgrows : Grows allowed (before.eraseNode id) g) (name : String) :
    (before.rolledBack id node g).tensorNamed? name = before.tensorNamed? name := by
  have hg : g.WellFormed := hgrows.wellFormed (hwf.eraseNode id)
  have hview : (before.rolledBack id node g).tensorNamed? name =
      if ∃ t ∈ g.tensors.drop before.tensors.length, t.name = name
        then none else g.tensorNamed? name := by
    unfold rolledBack
    rw [putBack_eq]
    exact tensorNamed?_cutBack name
  have hold : ∀ (x : TensorId) t, before.tensor? x = some t → g.tensor? x = some t :=
    fun x t => hgrows.tensor?
  rw [hview]
  split
  · next hname =>
    obtain ⟨t, ht, hname⟩ := hname
    obtain ⟨x, hnew, hx⟩ := mem_drop_tensors.mp ht
    symm
    rw [Option.eq_none_iff_forall_ne_some]
    intro y hy
    obtain ⟨u, hu, huname⟩ := (hwf.indexed name y).mp hy
    -- two tensors of one name have one number
    have hfound : g.tensorNamed? name = some x := (hg.indexed name x).mpr ⟨t, hx, hname⟩
    rw [(hg.indexed name y).mpr ⟨u, hold y u hu, huname⟩] at hfound
    cases hfound
    have := tensor?_lt hu
    omega
  · next hname =>
    ext x
    rw [hg.indexed, hwf.indexed]
    constructor
    · rintro ⟨t, hx, htname⟩
      by_cases hlt : x.index < before.tensors.length
      · have hsome : before.tensor? x = some before.tensors[x.index] := List.getElem?_eq_getElem hlt
        have hsame := hold x _ hsome
        rw [hx] at hsame
        cases hsame
        exact ⟨_, hsome, htname⟩
      · exact absurd ⟨t, mem_drop_tensors.mpr ⟨x, Nat.le_of_not_lt hlt, hx⟩, htname⟩ hname
    · rintro ⟨t, hx, htname⟩
      exact ⟨t, hold x t hx, htname⟩

theorem producer?_rolledBack (hwf : before.WellFormed) (hnode : before.node? id = some node)
    (hgrows : Grows allowed (before.eraseNode id) g) (t : TensorId) :
    (before.rolledBack id node g).producer? t = before.producer? t := by
  have hstart := hwf.eraseNode id
  ext n
  rw [producer?_eq_some, isLive_rolledBack hwf hnode hgrows]
  unfold rolledBack
  rw [get?_producers_putBack, producer?_eq_some]
  by_cases ht : t ∈ node.kind.outputs
  · rw [if_pos ht, hwf.claimed id node hnode t ht]
    rfl
  · rw [if_neg ht, get?_producers_cutBack]
    constructor
    · rintro ⟨⟨hholder, _, hold⟩, hn⟩
      refine ⟨?_, hn⟩
      rcases hgrows.get?_producers hstart t with hsame | ⟨_, m, hm, hnew⟩
      · rw [hsame] at hholder
        exact hholder
      · rw [hm] at hholder
        cases hholder
        exact absurd hold (Nat.not_lt.mpr hnew)
    · rintro ⟨hholder, hn⟩
      -- the detached node does not hold the tensor
      have hne : n ≠ id := by
        rintro rfl
        exact ht (hwf.produced n node hnode t hholder)
      have hstill := producer?_eraseNode.mpr ⟨producer?_eq_some.mpr ⟨hholder, hn⟩, hne⟩
      have hproducer := hgrows.producer? hstart hstill
      exact ⟨⟨(producer?_eq_some.mp hproducer).1, (hwf.recorded t n hholder).2, hwf.lt_of_live hn⟩, hn⟩

theorem mem_edges_rolledBack {e : Edge} :
    e ∈ (before.rolledBack id node g).edges ↔
      (e ∈ g.edges ∧ e.source.index < before.nextNode ∧ e.target.index < before.nextNode) ∨
        e ∈ before.edges ∧ (e.target = id ∨ e.source = id) := by
  unfold rolledBack
  rw [mem_edges_putBack_detachment]
  have hcut : e ∈ (g.cutBack (before.detachment id node)).edges ↔
      e ∈ g.edges ∧ e.source.index < before.nextNode ∧ e.target.index < before.nextNode := by
    show e ∈ g.edges.filter _ ↔ _
    rw [List.mem_filter, Bool.and_eq_true, decide_eq_true_eq, decide_eq_true_eq]
    rfl
  rw [hcut]

theorem isLive_of_old (hgrows : Grows allowed (before.eraseNode id) g) {n : NodeId}
    (hn : n.index < before.nextNode) (hlive : g.isLive n) : before.isLive n := by
  rw [isLive_eq_isSome, hgrows.node?_of_lt hn] at hlive
  exact (isLive_eraseNode.mp hlive).1

/-- The edges are those that were there and those that were added between nodes that were there. -/
theorem mem_edges_rolledBack_iff (hwf : before.WellFormed)
    (hgrows : Grows allowed (before.eraseNode id) g) {e : Edge} :
    e ∈ (before.rolledBack id node g).edges ↔
      e ∈ before.edges ∨ e ∈ g.edges ∧ before.isLive e.source ∧ before.isLive e.target := by
  have hends := (hgrows.wellFormed (hwf.eraseNode id)).ends
  rw [mem_edges_rolledBack]
  constructor
  · rintro (⟨he, hsource, htarget⟩ | ⟨he, _⟩)
    · exact .inr ⟨he, isLive_of_old hgrows hsource (hends e he).1,
        isLive_of_old hgrows htarget (hends e he).2⟩
    · exact .inl he
  · rintro (he | ⟨he, hsource, htarget⟩)
    · by_cases hend : e.target = id ∨ e.source = id
      · exact .inr ⟨he, hend⟩
      · rw [not_or] at hend
        have hlive := hwf.ends e he
        refine .inl ⟨hgrows.edges_subset (mem_edges_eraseNode.mpr ⟨he, hend.1, hend.2⟩), ?_⟩
        exact ⟨hwf.lt_of_live hlive.1, hwf.lt_of_live hlive.2⟩
    · exact .inl ⟨he, hwf.lt_of_live hsource, hwf.lt_of_live htarget⟩

theorem recorded_rolledBack (hwf : before.WellFormed) (hnode : before.node? id = some node)
    {t : TensorId} {n : NodeId}
    (h : (before.rolledBack id node g).producers.get? t.index = some n) :
    n.index < before.nextNode ∧ t.index < before.tensors.length := by
  unfold rolledBack at h
  rw [get?_producers_putBack] at h
  split at h
  · next ht =>
    cases h
    exact hwf.recorded t id (hwf.claimed id node hnode t ht)
  · obtain ⟨_, hcount, hold⟩ := get?_producers_cutBack.mp h
    exact ⟨hold, hcount⟩

theorem WellFormed.rolledBack (hwf : before.WellFormed) (hnode : before.node? id = some node)
    (hgrows : Grows allowed (before.eraseNode id) g) : (before.rolledBack id node g).WellFormed := by
  have hg : g.WellFormed := hgrows.wellFormed (hwf.eraseNode id)
  have htensor : ∀ t, (before.rolledBack id node g).tensor? t = before.tensor? t :=
    tensor?_rolledBack hgrows
  have hnodes := node?_rolledBack hwf hnode hgrows
  have hproducers := producer?_rolledBack hwf hnode hgrows
  have hnext : before.nextNode ≤ (before.rolledBack id node g).nextNode := nextNode_le_rolledBack hgrows
  exact
    { indexed := by
        intro name x
        rw [tensorNamed?_rolledBack hwf hgrows, htensor]
        exact hwf.indexed name x
      stored := by
        intro n other hother
        have := hwf.stored n other (hnodes n ▸ hother)
        exact ⟨this.1, by omega⟩
      registered := by
        intro n other hother t ht
        rw [htensor]
        exact hwf.registered n other (hnodes n ▸ hother) t ht
      contract := by
        intro n other op hother hop
        rw [Operator.check_congr fun t _ => htensor t]
        exact hwf.contract n other op (hnodes n ▸ hother) hop
      claimed := by
        intro n other hother t ht
        have hproducer := hwf.producer?_iff.mpr ⟨other, hnodes n ▸ hother, ht⟩
        rw [← hproducers] at hproducer
        exact (producer?_eq_some.mp hproducer).1
      produced := by
        intro n other hother t hholder
        have hproducer := producer?_eq_some.mpr ⟨hholder, isLive_of_node? hother⟩
        rw [hproducers, hwf.producer?_iff] at hproducer
        obtain ⟨same, hsame, ht⟩ := hproducer
        rw [← hnodes, hother] at hsame
        cases hsame
        exact ht
      recorded := by
        intro t n hholder
        have := recorded_rolledBack hwf hnode hholder
        rw [tensors_rolledBack hgrows]
        exact ⟨by omega, this.2⟩
      nodup := nodup_edges_putBack (hg.nodup.filter _)
      ends := by
        intro e he
        rw [isLive_rolledBack hwf hnode hgrows, isLive_rolledBack hwf hnode hgrows]
        rcases mem_edges_rolledBack.mp he with ⟨he, hsource, htarget⟩ | ⟨he, _⟩
        · exact ⟨isLive_of_old hgrows hsource (hg.ends e he).1,
            isLive_of_old hgrows htarget (hg.ends e he).2⟩
        · exact hwf.ends e he }

end Rollback

/-! ## No edge too many -/

section Dataflow

variable {before g : Graph} {id : NodeId} {node : Node}

/-- If all edges lead along the flow of data, no edge between old nodes is added while a node is
replaced: it would have to start at the detached node. -/
theorem mem_edges_of_old (hwf : before.WellFormed) (hflow : ∀ e ∈ before.edges, before.Dataflow e)
    (hgrows : Grows (before.detachment id node).Permits (before.eraseNode id) g) {e : Edge}
    (he : e ∈ g.edges) (hsource : e.source.index < before.nextNode)
    (htarget : e.target.index < before.nextNode) :
    e ∈ (before.eraseNode id).edges := by
  have hstart := hwf.eraseNode id
  induction hgrows with
  | refl => exact he
  | @tail g₁ g₂ hgrown hstep ih =>
    cases hstep with
    | tensor _ => exact ih he
    | node _ _ => exact ih he
    | constant _ _ _ => exact ih he
    | @edge e' _ _ hpermitted =>
      rcases mem_edges_addEdge.mp he with rfl | he
      · obtain ⟨hproducer, ⟨hnew, _⟩ | hsuccessor⟩ := hpermitted
        · exact absurd htarget (Nat.not_lt.mpr hnew)
        · obtain ⟨hmem, _⟩ := mem_successors_detachment.mp hsuccessor
          have hholder : before.producers.get? e.tensor.index = some id :=
            (producer?_eq_some.mp (hflow _ hmem).1).1
          obtain ⟨hclaim, hlive⟩ := producer?_eq_some.mp hproducer
          rcases Grows.get?_producers hgrown hstart e.tensor with hsame | ⟨_, n, hn, hnew⟩
          · -- the record still names the detached node, which is not there
            have hid : e.source = id := by
              rw [hsame] at hclaim
              exact Option.some.inj (hclaim.symm.trans hholder)
            rw [hid, isLive_eq_isSome, Grows.node?_of_lt hgrown (hid ▸ hsource),
              node?_eraseNode, if_pos rfl] at hlive
            cases hlive
          · rw [hclaim] at hn
            cases hn
            exact absurd hsource (Nat.not_lt.mpr hnew)
      · exact ih he

theorem SameContents.rolledBack (hwf : before.WellFormed)
    (hflow : ∀ e ∈ before.edges, before.Dataflow e) (hnode : before.node? id = some node)
    (hgrows : Grows (before.detachment id node).Permits (before.eraseNode id) g) :
    before.SameContents (before.rolledBack id node g) where
  tensors := tensors_rolledBack hgrows
  names := tensorNamed?_rolledBack hwf hgrows
  nodes := Table.ext_get? fun n => node?_rolledBack hwf hnode hgrows ⟨n⟩
  edges := by
    refine (List.perm_ext_iff_of_nodup (hwf.rolledBack hnode hgrows).nodup hwf.nodup).mpr fun e => ?_
    rw [mem_edges_rolledBack_iff hwf hgrows]
    refine or_iff_left_of_imp fun ⟨he, hsource, htarget⟩ => ?_
    have hold := mem_edges_of_old hwf hflow hgrows he (hwf.lt_of_live hsource) (hwf.lt_of_live htarget)
    exact (mem_edges_eraseNode.mp hold).1
  producers := producer?_rolledBack hwf hnode hgrows
  inputs := by
    unfold Graph.rolledBack
    rw [putBack_eq]
    exact hgrows.boundary.1
  outputs := by
    unfold Graph.rolledBack
    rw [putBack_eq]
    exact hgrows.boundary.2

end Dataflow

end Graph

end GraphLowering
