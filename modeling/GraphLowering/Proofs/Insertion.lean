import GraphLowering.Proofs.Growth

/-!
# Inserting tensors and nodes

`Graph.link` and `Graph.insert` are the graphs to which linking and inserting a node lead. The
computations on a session do nothing else to the graph (`Edit.linkInput_run`,
`Edit.insertNode_run`), and what they do are additions along the flow of data to the node that is
inserted (`Graph.insert_grows`).
-/

namespace GraphLowering

namespace Graph

/-- The graph in which a node is linked to the producer of a tensor that it reads. A constant that
nothing produces gets a node. -/
def link (g : Graph) (reader : NodeId) (t : TensorId) : Graph :=
  match g.producer? t with
  | some source => g.addEdge ⟨source, reader, t⟩
  | none =>
    if (g.tensor? t).any (·.isConstant) then
      (g.pushNode (g.nameFor (.constant t)) (.constant t) false).addEdge ⟨⟨g.nextNode⟩, reader, t⟩
    else
      g

/-- The graph with a node under the next number, which is linked to the producers of the tensors it
reads. -/
def insert (g : Graph) (kind : NodeKind) (lowered : Bool) : Graph :=
  kind.inputs.foldl (·.link ⟨g.nextNode⟩) (g.pushNode (g.nameFor kind) kind lowered)

@[simp] theorem link_tensors (g : Graph) (reader : NodeId) (t : TensorId) :
    (g.link reader t).tensors = g.tensors := by
  unfold link
  split
  · exact addEdge_tensors _ _
  · split
    · exact addEdge_tensors _ _
    · rfl

@[simp] theorem tensor?_link (g : Graph) (reader : NodeId) (t id : TensorId) :
    (g.link reader t).tensor? id = g.tensor? id := by
  simp [tensor?]

variable {allowed : Graph → Edge → Prop} {g : Graph}

/-! ## Linking adds along the flow of data -/

theorem producer?_pushNode_self {name : String} {kind : NodeKind} {lowered : Bool} {t : TensorId}
    (ht : t ∈ kind.outputs) :
    (g.pushNode name kind lowered).producer? t = some ⟨g.nextNode⟩ := by
  refine producer?_eq_some.mpr ⟨?_, ?_⟩
  · rw [get?_producers_pushNode, if_pos ht]
  · rw [isLive_eq_isSome, node?_pushNode, if_pos rfl]
    rfl

theorem link_grows {reader : NodeId} {t : TensorId} (hreads : g.Reads reader t)
    (hlt : reader.index < g.nextNode)
    (hallowed : ∀ g e, g.Dataflow e → e.target = reader → allowed g e) :
    Grows allowed g (g.link reader t) := by
  unfold link
  split
  · next source hsource =>
    have hflow : g.Dataflow ⟨source, reader, t⟩ := ⟨hsource, hreads⟩
    exact .single (.edge hflow.live.1 hflow.live.2 (hallowed g _ hflow rfl))
  · next hfree =>
    split
    · next hconst =>
      obtain ⟨tensor, hknown, hconst⟩ := (Option.any_eq_true _ _).mp hconst
      have hflow : (g.pushNode (g.nameFor (.constant t)) (.constant t) false).Dataflow
          ⟨⟨g.nextNode⟩, reader, t⟩ := by
        refine ⟨producer?_pushNode_self (List.mem_singleton_self t), ?_⟩
        obtain ⟨node, hnode, hmem⟩ := hreads
        exact ⟨node, by rw [node?_pushNode_of_lt hlt, hnode], hmem⟩
      exact (Relation.ReflTransGen.single (.constant hknown hconst hfree)).tail
        (.edge hflow.live.1 hflow.live.2 (hallowed _ _ hflow rfl))
    · exact .refl

theorem foldl_link_grows {reader : NodeId} (ts : List TensorId)
    (hreads : ∀ t ∈ ts, g.Reads reader t) (hlt : reader.index < g.nextNode)
    (hallowed : ∀ g e, g.Dataflow e → e.target = reader → allowed g e) :
    Grows allowed g (ts.foldl (·.link reader) g) := by
  induction ts generalizing g with
  | nil => exact .refl
  | cons t rest ih =>
    have hhead : Grows allowed g (g.link reader t) :=
      link_grows (hreads t List.mem_cons_self) hlt hallowed
    refine hhead.trans (ih ?_ (Nat.lt_of_lt_of_le hlt hhead.nextNode_le))
    intro x hx
    obtain ⟨node, hnode, hmem⟩ := hreads x (List.mem_cons_of_mem t hx)
    exact ⟨node, by rw [hhead.node?_of_lt hlt, hnode], hmem⟩

theorem reads_pushNode_self {name : String} {kind : NodeKind} {lowered : Bool} {t : TensorId}
    (ht : t ∈ kind.inputs) :
    (g.pushNode name kind lowered).Reads ⟨g.nextNode⟩ t :=
  ⟨⟨⟨g.nextNode⟩, name, kind, lowered⟩, by rw [node?_pushNode, if_pos rfl], ht⟩

theorem insert_grows {kind : NodeKind} {lowered : Bool} (haccepted : g.insertError? kind lowered = none)
    (hcontract : ∀ op, kind = .operator op → op.check g = .ok ())
    (hallowed : ∀ g' e, g'.Dataflow e → e.target = ⟨g.nextNode⟩ → allowed g' e) :
    Grows allowed g (g.insert kind lowered) := by
  refine (Relation.ReflTransGen.single (.node haccepted hcontract)).trans ?_
  exact foldl_link_grows _ (fun t ht => reads_pushNode_self ht) (Nat.lt_succ_self _) hallowed

theorem nextNode_lt_insert {kind : NodeKind} {lowered : Bool} :
    g.nextNode < (g.insert kind lowered).nextNode := by
  have hlinks :
      Grows (fun _ _ => True) (g.pushNode (g.nameFor kind) kind lowered) (g.insert kind lowered) :=
    foldl_link_grows _ (fun t ht => reads_pushNode_self ht) (Nat.lt_succ_self _)
      (fun _ _ _ _ => trivial)
  exact hlinks.nextNode_le

theorem node?_insert_self {kind : NodeKind} {lowered : Bool} :
    (g.insert kind lowered).node? ⟨g.nextNode⟩ =
      some ⟨⟨g.nextNode⟩, g.nameFor kind, kind, lowered⟩ := by
  have hlinks :
      Grows (fun _ _ => True) (g.pushNode (g.nameFor kind) kind lowered) (g.insert kind lowered) :=
    foldl_link_grows _ (fun t ht => reads_pushNode_self ht) (Nat.lt_succ_self _)
      (fun _ _ _ _ => trivial)
  rw [hlinks.node?_of_lt (Nat.lt_succ_self _), node?_pushNode, if_pos rfl]

end Graph

namespace Edit

abbrev Along (R : Graph → Graph → Prop) : Session → Session → Prop :=
  Function.onFun R Session.graph

variable {allowed : Graph → Edge → Prop} {s : Session}

theorem note_ends {R : Graph → Graph → Prop} [Std.Refl R] (event : Event) :
    Ends (Along R) (note event) s fun _ s' => s'.graph = s.graph :=
  ⟨Std.Refl.refl s.graph, rfl⟩

theorem modifyGraph_ends {R : Graph → Graph → Prop} {f : Graph → Graph} (h : R s.graph (f s.graph)) :
    Ends (Along R) (modifyGraph f) s fun _ s' => s'.graph = f s.graph :=
  ⟨h, rfl⟩

/-! ## What the computations lead to -/

theorem addTensor_ends (tensor : Tensor) :
    Ends (Along Graph.Registers) (addTensor tensor) s fun id s' =>
      s.graph.tensorNamed? tensor.name = none ∧ id = ⟨s.graph.tensors.length⟩ ∧
        s'.graph = s.graph.pushTensor tensor := by
  unfold addTensor
  refine Ends.read rfl (.ite (fun _ => reject_ends _) fun hfresh => ?_)
  have hnone : s.graph.tensorNamed? tensor.name = none := by simpa using hfresh
  refine Ends.bind (modifyGraph_ends (.single ⟨tensor, hnone, rfl⟩)) fun _ s' _ hs' => ?_
  exact Ends.pure ⟨hnone, rfl, hs'⟩

theorem linkInput_run (reader : NodeId) {t : TensorId} (ht : (s.graph.tensor? t).isSome) :
    ∃ events, linkInput reader t s = .ok () ⟨s.graph.link reader t, events⟩ := by
  obtain ⟨tensor, htensor⟩ := Option.isSome_iff_exists.mp ht
  unfold linkInput Graph.link
  rw [run_bind_ok (show Edit.graph s = .ok s.graph s from rfl)]
  cases hproducer : s.graph.producer? t with
  | some source => exact ⟨s.events, rfl⟩
  | none =>
    have hname : s.graph.nameFor (.constant t) = tensor.name := by
      simp [Graph.nameFor, NodeKind.outputs, htensor]
    simp only [htensor, hname, Option.any_some]
    rw [run_bind_ok
      (show (orFault .droppedTensor (some tensor) : Edit Tensor) s = .ok tensor s from rfl)]
    by_cases hconst : tensor.isConstant
    · rw [if_pos hconst, if_pos hconst]
      exact ⟨s.events, rfl⟩
    · rw [if_neg hconst, if_neg hconst]
      exact ⟨s.events ++ [.noProducer reader tensor.name], rfl⟩

theorem forM_linkInput_run (reader : NodeId) (ts : List TensorId)
    (hts : ∀ t ∈ ts, (s.graph.tensor? t).isSome) :
    ∃ events, ts.forM (linkInput reader) s = .ok () ⟨ts.foldl (·.link reader) s.graph, events⟩ := by
  induction ts generalizing s with
  | nil => exact ⟨s.events, rfl⟩
  | cons t rest ih =>
    obtain ⟨events, hhead⟩ := linkInput_run reader (hts t List.mem_cons_self)
    obtain ⟨events', hrest⟩ := ih (s := ⟨s.graph.link reader t, events⟩) fun x hx => by
      rw [Graph.tensor?_link]
      exact hts x (List.mem_cons_of_mem t hx)
    refine ⟨events', ?_⟩
    show (linkInput reader t >>= fun _ => rest.forM (linkInput reader)) s = _
    rw [run_bind_ok hhead]
    exact hrest

theorem insertNode_run {kind : NodeKind} {lowered : Bool}
    (haccepted : s.graph.insertError? kind lowered = none) :
    ∃ events,
      insertNode kind lowered s = .ok ⟨s.graph.nextNode⟩ ⟨s.graph.insert kind lowered, events⟩ := by
  have hregistered := (Graph.insertError?_eq_none.mp haccepted).1
  obtain ⟨events, hlinks⟩ := forM_linkInput_run ⟨s.graph.nextNode⟩
    (s := ⟨s.graph.pushNode (s.graph.nameFor kind) kind lowered, s.events⟩) kind.inputs
    fun t ht => hregistered t (List.mem_append_left _ ht)
  refine ⟨events, ?_⟩
  unfold insertNode
  rw [run_bind_ok (show Edit.graph s = .ok s.graph s from rfl), haccepted]
  exact run_bind_ok hlinks

theorem insertNode_rejected {kind : NodeKind} {lowered : Bool} {e : GraphError}
    (hrejected : s.graph.insertError? kind lowered = some e) :
    insertNode kind lowered s = (reject (.graph e) : Edit NodeId) s := by
  unfold insertNode
  rw [run_bind_ok (show Edit.graph s = .ok s.graph s from rfl), hrejected]

theorem insertNode_ends {kind : NodeKind} {lowered : Bool}
    (hcontract : ∀ op, kind = .operator op → op.check s.graph = .ok ())
    (hallowed : ∀ g e, g.Dataflow e → e.target = ⟨s.graph.nextNode⟩ → allowed g e) :
    Ends (Along (Graph.Grows allowed)) (insertNode kind lowered) s fun id s' =>
      s.graph.insertError? kind lowered = none ∧ id = ⟨s.graph.nextNode⟩ ∧
        s'.graph = s.graph.insert kind lowered := by
  cases haccepted : s.graph.insertError? kind lowered with
  | none =>
    obtain ⟨events, hrun⟩ := insertNode_run haccepted
    unfold Ends
    rw [hrun]
    exact ⟨Graph.insert_grows haccepted hcontract hallowed, rfl, rfl, rfl⟩
  | some e =>
    unfold Ends
    rw [insertNode_rejected haccepted]
    exact reject_ends (P := fun _ _ => _) _

theorem addOperator_ends {op : Operator} {lowered : Bool}
    (hallowed : ∀ g e, g.Dataflow e → e.target = ⟨s.graph.nextNode⟩ → allowed g e) :
    Ends (Along (Graph.Grows allowed)) (addOperator op lowered) s fun id s' =>
      op.check s.graph = .ok () ∧ s.graph.insertError? (.operator op) lowered = none ∧
        id = ⟨s.graph.nextNode⟩ ∧
        s'.graph = s.graph.insert (.operator op) lowered := by
  unfold addOperator
  refine Ends.read rfl (Ends.andThen (liftGraph_ends _) fun _ hcheck => ?_)
  refine (insertNode_ends ?_ hallowed).mono fun id s' _ h => ⟨hcheck, h⟩
  rintro _ ⟨rfl⟩
  exact hcheck

end Edit

end GraphLowering
