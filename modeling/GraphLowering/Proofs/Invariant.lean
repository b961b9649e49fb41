import GraphLowering.Proofs.Reachability

/-!
# What holds of every graph that calls lead to

Each call, also one that is rejected, keeps the invariant and lets nodes keep their numbers
(`Graph.Evolves`). That edges lead along the flow of data is kept too, but for edges that are put in
by hand. It hangs together with what is remembered of detached nodes: restoring edges is sound if
the remembered readers still read what they read (`Detachment.Current`), and numbers that are not
given twice make sure of that.

From the invariant of a run (`World.Sound`) follow the results about runs: the tables always fit
together, and a rejected lowering leaves no trace.
-/

namespace GraphLowering

namespace Graph

/-- A number that was given to a node names the same node, or none any more. -/
def Ages (g g' : Graph) : Prop :=
  g.nextNode ≤ g'.nextNode ∧ ∀ id : NodeId, id.index < g.nextNode →
    g'.node? id = none ∨ g'.node? id = g.node? id

def Flows (g : Graph) : Prop :=
  ∀ e ∈ g.edges, g.Dataflow e

/-- The invariants survive, and nodes keep their numbers. -/
def Evolves (g g' : Graph) : Prop :=
  g.WellFormed → g'.WellFormed ∧ g.Ages g' ∧ (g.Flows → g'.Flows)

variable {g g' g'' : Graph} {allowed : Graph → Edge → Prop}

theorem Ages.refl (g : Graph) : g.Ages g :=
  ⟨Nat.le_refl _, fun _ _ => .inr rfl⟩

theorem Ages.trans (h : g.Ages g') (h' : g'.Ages g'') : g.Ages g'' := by
  refine ⟨Nat.le_trans h.1 h'.1, fun id hid => ?_⟩
  rcases h'.2 id (Nat.lt_of_lt_of_le hid h.1) with hnone | hsame
  · exact .inl hnone
  · rw [hsame]
    exact h.2 id hid

theorem Ages.node?_of_live (h : g.Ages g') {n : NodeId} (hn : n.index < g.nextNode)
    (hlive : g'.isLive n) :
    g'.node? n = g.node? n := by
  rcases h.2 n hn with hnone | hsame
  · rw [isLive_eq_isSome, hnone] at hlive
    cases hlive
  · exact hsame

theorem Grows.ages (h : Grows allowed g g') : g.Ages g' :=
  ⟨h.nextNode_le, fun _ hid => .inr (h.node?_of_lt hid)⟩

theorem ages_eraseNode (g : Graph) (id : NodeId) : g.Ages (g.eraseNode id) := by
  refine ⟨Nat.le_refl _, fun n _ => ?_⟩
  rw [node?_eraseNode]
  split
  · exact .inl rfl
  · exact .inr rfl

instance : Std.Refl Evolves :=
  ⟨fun g h => ⟨h, .refl g, id⟩⟩

instance : IsTrans Graph Evolves where
  trans _ _ _ h h' hwf := by
    obtain ⟨hwf₁, hages₁, hflows₁⟩ := h hwf
    obtain ⟨hwf₂, hages₂, hflows₂⟩ := h' hwf₁
    exact ⟨hwf₂, hages₁.trans hages₂, fun hflows => hflows₂ (hflows₁ hflows)⟩

end Graph

/-- The readers that a detachment remembers read the tensors it remembers for them, as long as they
are in the graph. -/
def Detachment.Current (d : Detachment) (g : Graph) : Prop :=
  ∀ t target, (t, target) ∈ d.successors → target.index < g.nextNode ∧
    (g.isLive target → g.Reads target t)

namespace Graph

variable {g g' : Graph} {d : Detachment} {id : NodeId} {node : Node}

theorem Ages.current (h : g.Ages g') (hd : d.Current g) : d.Current g' := by
  intro t target hmem
  obtain ⟨hlt, hreads⟩ := hd t target hmem
  refine ⟨Nat.lt_of_lt_of_le hlt h.1, fun hlive => ?_⟩
  have hsame := h.node?_of_live hlt hlive
  rw [isLive_eq_isSome, hsame] at hlive
  unfold Reads
  rw [hsame]
  exact hreads hlive

/-! ## What keeps the edges along the flow of data -/

theorem Evolves.of_grows (h : Grows (fun g e => g.Dataflow e) g g') : g.Evolves g' :=
  fun hwf => ⟨h.wellFormed hwf, h.ages, h.dataflow hwf fun _ _ he => he⟩

/-- While a node is replaced, edges are added along the flow of data, if its readers read what they
are said to read. -/
theorem Grows.flows (h : Grows d.Permits g g') (hwf : g.WellFormed) (hd : d.Current g)
    (hflows : g.Flows) : g'.Flows := by
  induction h with
  | refl => exact hflows
  | @tail g₁ g₂ hgrown hstep ih =>
    have hwf₁ : g₁.WellFormed := Grows.wellFormed hgrown hwf
    have hkeep : ∀ e, g₁.Dataflow e → g₂.Dataflow e :=
      fun e he => ⟨hstep.producer? hwf₁ he.1, hstep.reads hwf₁ he.2⟩
    intro e he
    cases hstep with
    | tensor _ => exact hkeep e (ih e he)
    | node _ _ => exact hkeep e (ih e he)
    | constant _ _ _ => exact hkeep e (ih e he)
    | edge _ htarget hpermitted =>
      rcases mem_edges_addEdge.mp he with rfl | he
      · obtain ⟨hproducer, ⟨_, hreads⟩ | hsuccessor⟩ := hpermitted
        · exact hkeep e ⟨hproducer, hreads⟩
        · exact hkeep e ⟨hproducer, ((Grows.ages hgrown).current hd _ _ hsuccessor).2 htarget⟩
      · exact hkeep e (ih e he)

theorem Evolves.setInputs (g : Graph) (inputs : List TensorId) : g.Evolves { g with inputs } :=
  fun hwf => ⟨hwf.setInputs inputs, .refl g, id⟩

theorem Evolves.setOutputs (g : Graph) (outputs : List TensorId) : g.Evolves { g with outputs } :=
  fun hwf => ⟨hwf.setOutputs outputs, .refl g, id⟩

theorem Evolves.eraseNode (g : Graph) (id : NodeId) : g.Evolves (g.eraseNode id) := by
  refine fun hwf => ⟨hwf.eraseNode id, ages_eraseNode g id, fun hflows e he => ?_⟩
  obtain ⟨hmem, htarget, hsource⟩ := mem_edges_eraseNode.mp he
  obtain ⟨hproducer, hreads⟩ := hflows e hmem
  exact ⟨producer?_eraseNode.mpr ⟨hproducer, hsource⟩, reads_eraseNode.mpr ⟨hreads, htarget⟩⟩

theorem Flows.current (hwf : g.WellFormed) (hflows : g.Flows) :
    (g.detachment id node).Current (g.eraseNode id) := by
  intro t target hmem
  obtain ⟨he, hne⟩ := mem_successors_detachment.mp hmem
  have hflow := hflows _ he
  exact ⟨hwf.lt_of_live hflow.live.2, fun _ => reads_eraseNode.mpr ⟨hflow.2, hne⟩⟩

/-! ## Replacing nodes -/

theorem Lowers.evolves {ids : List NodeId} (h : g.Lowers id ids g') : g.Evolves g' := by
  obtain ⟨node, op, _, _, hgrows, _⟩ := h
  intro hwf
  obtain ⟨hwf₁, hages, hflows₁⟩ := Evolves.eraseNode g id hwf
  exact ⟨hgrows.wellFormed hwf₁, hages.trans hgrows.ages,
    fun hflows => hgrows.flows hwf₁ (hflows.current hwf) (hflows₁ hflows)⟩

theorem SameContents.node? (h : g.SameContents g') (id : NodeId) : g'.node? id = g.node? id := by
  unfold Graph.node?
  rw [h.nodes]

theorem SameContents.dataflow_iff (h : g.SameContents g') {e : Edge} :
    g'.Dataflow e ↔ g.Dataflow e := by
  unfold Dataflow Reads
  rw [h.producers, h.node?]

theorem Refuses.evolves (h : g.Refuses id g') : g.Evolves g' := by
  intro hwf
  refine ⟨h.wellFormed hwf, ?_, fun hflows e he => ?_⟩
  · rcases h with rfl | ⟨node, tried, hnode, hgrows, rfl⟩
    · exact .refl g'
    · exact ⟨nextNode_le_rolledBack hgrows, fun n _ => .inr (node?_rolledBack hwf hnode hgrows n)⟩
  · have hsame := h.sameContents hwf hflows
    exact hsame.dataflow_iff.mpr (hflows e (hsame.edges.mem_iff.mp he))

end Graph

namespace Edit

variable {s : Session}

theorem lowerNode_evolves (id : NodeId) (options : Options) :
    Settles Graph.Evolves (lowerNode id options) s fun _ _ => True := by
  obtain ⟨hok, hrejected⟩ := lowerNode_run id options s
  unfold Settles
  split
  · next hrun => exact ⟨(hok _ _ hrun).evolves, trivial⟩
  · next hrun => exact (hrejected _ _ hrun).evolves
  · trivial

theorem lowerGraph_settles {R : Graph → Graph → Prop} [Std.Refl R] [IsTrans Graph R]
    {options : Options} (h : ∀ id s, Settles R (lowerNode id options) s fun _ _ => True) :
    Settles R (lowerGraph options) s fun _ _ => True := by
  unfold lowerGraph
  have hgraph : Settles R graph s fun _ _ => True := ⟨Std.Refl.refl _, trivial⟩
  refine hgraph.bind fun g s' _ _ => ?_
  split
  · next stop _ =>
    cases stop with
    | rejected e =>
      show R s'.graph s'.graph
      exact Std.Refl.refl _
    | fault f => trivial
  · refine Settles.foldlM _ _ fun report id s => ?_
    exact (h id s).bind fun _ _ _ _ => Settles.pure trivial

theorem insertNode_evolves {kind : NodeKind} {lowered : Bool}
    (hcontract : ∀ op, kind = .operator op → op.check s.graph = .ok ()) :
    Ends (Along Graph.Evolves) (insertNode kind lowered) s fun _ _ => True :=
  ((insertNode_ends hcontract fun _ _ hflow _ => hflow).mono fun _ _ _ _ => trivial).along
    fun _ h => .of_grows h

theorem addTensor_evolves (t : Tensor) : Ends (Along Graph.Evolves) (addTensor t) s fun _ _ => True :=
  ((addTensor_ends t).mono fun _ _ _ _ => trivial).along fun _ h => .of_grows (Graph.Registers.grows h)

theorem addInput_evolves (t : Tensor) : Ends (Along Graph.Evolves) (addInput t) s fun _ _ => True := by
  unfold addInput
  refine (addTensor_evolves t).bind fun id s₁ _ _ => ?_
  refine Ends.bind (insertNode_evolves ?_) fun _ s₂ _ _ => ?_
  · intro op hop
    cases hop
  · exact (modifyGraph_ends (.setInputs _ _)).bind fun _ _ _ _ => Ends.pure trivial

theorem markOutput_evolves (t : TensorId) :
    Ends (Along Graph.Evolves) (markOutput t) s fun _ _ => True := by
  unfold markOutput
  refine Ends.bind (insertNode_evolves ?_) fun _ s₁ _ _ => ?_
  · intro op hop
    cases hop
  · exact (modifyGraph_ends (.setOutputs _ _)).bind fun _ _ _ _ => Ends.pure trivial

theorem addOperator_evolves (op : Operator) (lowered : Bool) :
    Ends (Along Graph.Evolves) (addOperator op lowered) s fun _ _ => True :=
  ((addOperator_ends fun _ _ hflow _ => hflow).mono fun _ _ _ _ => trivial).along fun _ h => .of_grows h

theorem detach_ends {R : Graph → Graph → Prop} [Std.Refl R] [IsTrans Graph R] {id : NodeId}
    (h : R s.graph (s.graph.eraseNode id)) :
    Ends (Along R) (detach id) s fun r s' =>
      ∃ node, r.2 = s.graph.detachment id node ∧ s'.graph = s.graph.eraseNode id := by
  unfold detach
  refine Ends.read rfl ?_
  split
  · exact reject_ends _
  · next node _ =>
    exact (modifyGraph_ends h).bind fun _ s₁ _ hs₁ => Ends.pure ⟨node, rfl, hs₁⟩

theorem connect_ends {R : Graph → Graph → Prop} [Std.Refl R] {source target : NodeId}
    {t : TensorId}
    (h : s.graph.isLive source → s.graph.isLive target → (s.graph.tensor? t).isSome →
      R s.graph (s.graph.addEdge ⟨source, target, t⟩)) :
    Ends (Along R) (connect source target t) s fun _ _ => True := by
  unfold connect
  refine Ends.read rfl ?_
  split
  · exact reject_ends _
  · next hlive =>
    have hends : ∀ id ∈ [source, target], s.graph.isLive id := by
      simpa using List.find?_eq_none.mp hlive
    refine Ends.andThen (liftGraph_ends _) fun tensor htensor =>
      (modifyGraph_ends ?_).mono fun _ _ _ _ => trivial
    refine h (hends _ (by simp)) (hends _ (by simp)) ?_
    rw [Graph.tensor_eq_ok.mp htensor]
    rfl

end Edit

/-! ## Runs -/

/-- The invariant of a run. The part about the flow of data needs that no edge was put in by hand. -/
structure World.Sound (w : World) (flowing : Prop) : Prop where
  wellFormed : w.graph.WellFormed
  flows : flowing → w.graph.Flows
  current : flowing → ∀ d ∈ w.captured, d.Current w.graph

/-- A call goes along the relation along which its computation settles, and captures what it
returns. -/
theorem Call.perform_cases {w w' : World} {call : Call} {R : Graph → Graph → Prop}
    {P : Option Detachment → Graph → Prop} (h : Settles R (call.edit w.captured) w.session P)
    (hperform : call.perform w = some w') :
    R w.graph w'.graph ∧
      (w'.captured = w.captured ∨ ∃ d, w'.captured = w.captured ++ [d] ∧ P (some d) w'.graph) := by
  unfold Settles at h
  unfold perform at hperform
  split at hperform
  · next d s hrun =>
    rw [hrun] at h
    cases hperform
    refine ⟨h.1, ?_⟩
    cases d with
    | none => exact .inl (List.append_nil _)
    | some d => exact .inr ⟨d, rfl, h.2⟩
  · next hrun =>
    rw [hrun] at h
    cases hperform
    exact ⟨h, .inl rfl⟩
  · cases hperform

namespace World.Sound

variable {w w' : World} {flowing : Prop}

theorem of_settles (h : w.Sound flowing) {call : Call} {α : Type} {m : Edit α}
    (hedit : call.edit w.captured = do let _ ← m return none)
    (hm : Settles Graph.Evolves m w.session fun _ _ => True) (hperform : call.perform w = some w') :
    w'.Sound flowing := by
  have hsettles : Settles Graph.Evolves (call.edit w.captured) w.session fun d _ => d = none := by
    rw [hedit]
    exact hm.bind fun _ _ _ _ => Settles.pure rfl
  obtain ⟨hevolves, hcaptured | ⟨d, _, hd⟩⟩ := Call.perform_cases hsettles hperform
  · obtain ⟨hwf, hages, hflows⟩ := hevolves h.wellFormed
    refine ⟨hwf, fun hf => hflows (h.flows hf), fun hf d hd => ?_⟩
    rw [hcaptured] at hd
    exact hages.current (h.current hf d hd)
  · cases hd

theorem connect (h : w.Sound flowing) (hflowing : ¬ flowing) {source target : NodeId} {t : TensorId}
    (hperform : (Call.connect source target t).perform w = some w') : w'.Sound flowing := by
  have htrans : IsTrans Graph fun g g' => g.WellFormed → g'.WellFormed :=
    ⟨fun _ _ _ h h' hwf => h' (h hwf)⟩
  have hrefl : Std.Refl fun g g' : Graph => g.WellFormed → g'.WellFormed := ⟨fun _ h => h⟩
  have hsettles : Settles (fun g g' => g.WellFormed → g'.WellFormed)
      ((Call.connect source target t).edit w.captured)
      w.session fun _ _ => True :=
    (Settles.of_ends (P := fun _ _ => True)
      (Edit.connect_ends fun hsource htarget _ hwf => hwf.addEdge hsource htarget)
      fun _ _ h => h).bind fun _ _ _ _ => Settles.pure trivial
  have hwf := (Call.perform_cases hsettles hperform).1 h.wellFormed
  exact ⟨hwf, fun hf => absurd hf hflowing, fun hf => absurd hf hflowing⟩

theorem detach (h : w.Sound flowing) {id : NodeId} (hperform : (Call.detach id).perform w = some w') :
    w'.Sound flowing := by
  have hsettles : Settles Graph.Evolves ((Call.detach id).edit w.captured) w.session fun d g =>
      ∃ node, d = some (w.graph.detachment id node) ∧ g = w.graph.eraseNode id := by
    refine (Settles.of_ends (P := fun r g => ∃ node, r.2 = w.graph.detachment id node ∧
      g = w.graph.eraseNode id) (Edit.detach_ends (.eraseNode _ id)) fun _ _ h => h).bind
      fun r s' _ hr => ?_
    obtain ⟨node, hd, hg⟩ := hr
    exact Settles.pure ⟨node, congrArg some hd, hg⟩
  obtain ⟨hevolves, hcaptured⟩ := Call.perform_cases hsettles hperform
  obtain ⟨hwf, hages, hflows⟩ := hevolves h.wellFormed
  refine ⟨hwf, fun hf => hflows (h.flows hf), fun hf d hd => ?_⟩
  have hold : ∀ d ∈ w.captured, d.Current w'.graph := fun d hd => hages.current (h.current hf d hd)
  rcases hcaptured with hsame | ⟨new, hnew, node, hdetached, hgraph⟩
  · rw [hsame] at hd
    exact hold d hd
  · rw [hnew, List.mem_append, List.mem_singleton] at hd
    rcases hd with hd | rfl
    · exact hold d hd
    · cases hdetached
      rw [hgraph]
      exact (h.flows hf).current h.wellFormed

theorem restore (h : w.Sound flowing) {i : Nat} (hperform : (Call.restore i).perform w = some w') :
    w'.Sound flowing := by
  cases hcaptured : w.captured[i]? with
  | none =>
    have hedit : (Call.restore i).edit w.captured = pure none := by
      simp only [Call.edit, hcaptured]
    unfold Call.perform at hperform
    rw [hedit] at hperform
    cases hperform
    rw [Option.toList_none, List.append_nil]
    exact h
  | some d =>
    have hrestore : Ends (Edit.Along (Graph.Grows d.Permits)) (Edit.restore d) w.session
        fun _ _ => True :=
      (Edit.restore_ends.mono fun _ _ _ _ => trivial).along fun _ hlinked => hlinked.grows
    have hsettles : Settles (Graph.Grows d.Permits) ((Call.restore i).edit w.captured) w.session
        fun r _ => r = none := by
      simp only [Call.edit, hcaptured]
      exact (Settles.of_ends (P := fun _ _ => True) hrestore fun _ _ h => h).bind fun _ _ _ _ =>
        Settles.pure rfl
    obtain ⟨hgrows, hsame | ⟨_, _, hnone⟩⟩ := Call.perform_cases hsettles hperform
    · have hmem : d ∈ w.captured := List.mem_of_getElem? hcaptured
      refine ⟨hgrows.wellFormed h.wellFormed, fun hf => ?_, fun hf d' hd' => ?_⟩
      · exact hgrows.flows h.wellFormed (h.current hf d hmem) (h.flows hf)
      · rw [hsame] at hd'
        exact hgrows.ages.current (h.current hf d' hd')
    · cases hnone

theorem perform (h : w.Sound flowing) {call : Call} (hconnect : flowing → ¬ call.isConnect)
    (hperform : call.perform w = some w') : w'.Sound flowing := by
  cases call with
  | addTensor t => exact h.of_settles rfl (.of_ends (Edit.addTensor_evolves t) fun _ _ h => h) hperform
  | addInput t => exact h.of_settles rfl (.of_ends (Edit.addInput_evolves t) fun _ _ h => h) hperform
  | markOutput t =>
    exact h.of_settles rfl (.of_ends (Edit.markOutput_evolves t) fun _ _ h => h) hperform
  | addOperator op lowered =>
    exact h.of_settles rfl (.of_ends (Edit.addOperator_evolves op lowered) fun _ _ h => h) hperform
  | addComposite op =>
    refine h.of_settles rfl (.of_ends (Edit.insertNode_evolves ?_) fun _ _ h => h) hperform
    intro op hop
    cases hop
  | connect source target t => exact h.connect (fun hf => hconnect hf rfl) hperform
  | detach id => exact h.detach hperform
  | restore i => exact h.restore hperform
  | lowerNode id options => exact h.of_settles rfl (Edit.lowerNode_evolves id options) hperform
  | lowerGraph options =>
    exact h.of_settles rfl (Edit.lowerGraph_settles fun id _ => Edit.lowerNode_evolves id options)
      hperform

theorem foldlM (h : w.Sound flowing) {calls : List Call}
    (hconnect : flowing → ∀ call ∈ calls, ¬ call.isConnect)
    (hrun : calls.foldlM Call.perform w = some w') : w'.Sound flowing := by
  induction calls generalizing w with
  | nil =>
    cases hrun
    exact h
  | cons call rest ih =>
    rw [List.foldlM_cons] at hrun
    obtain ⟨w₁, hcall, hrest⟩ := Option.bind_eq_some_iff.mp hrun
    refine ih (h.perform (fun hf => hconnect hf call List.mem_cons_self) hcall)
      (fun hf c hc => ?_) hrest
    exact hconnect hf c (List.mem_cons_of_mem call hc)

end World.Sound

theorem World.after_sound {calls : List Call} {w : World} (h : World.after calls = some w) :
    w.Sound (∀ call ∈ calls, ¬ call.isConnect) := by
  refine World.Sound.foldlM ⟨.empty, ?_, ?_⟩ (fun hf => hf) h
  · intro _ e he
    cases he
  · intro _ d hd
    cases hd

/-- The tables of a graph, seen from outside. -/
structure Graph.Container (g : Graph) : Prop where
  /-- A name is found exactly if a tensor has it, and leads to that tensor. -/
  names : ∀ name id, g.tensorNamed? name = some id ↔ ∃ t, g.tensor? id = some t ∧ t.name = name
  /-- No two tensors have one name. -/
  distinct : ∀ x y t u, g.tensor? x = some t → g.tensor? y = some u → t.name = u.name → x = y
  /-- A node is stored under its own number, and the next number is free. -/
  stored : ∀ id node, g.node? id = some node → node.id = id ∧ id.index < g.nextNode
  /-- Nodes name registered tensors. -/
  registered : ∀ id node, g.node? id = some node →
    ∀ t ∈ node.kind.inputs ++ node.kind.outputs, (g.tensor? t).isSome
  /-- Operators keep the contracts of their kinds. -/
  contract : ∀ id node op, g.node? id = some node → node.kind = .operator op → op.check g = .ok ()
  /-- A tensor is a result of one node at most. -/
  once : ∀ t id id' node node', g.node? id = some node → g.node? id' = some node' →
    t ∈ node.kind.outputs →
    t ∈ node'.kind.outputs → id = id'
  /-- The producer of a tensor is the node that has it among its results. -/
  producer : ∀ t id, g.producer? t = some id ↔ ∃ node, g.node? id = some node ∧ t ∈ node.kind.outputs
  /-- What is recorded of nodes that are gone does not stand for a node or tensor to come. -/
  recorded : ∀ (t : TensorId) id, g.producers.get? t.index = some id →
    id.index < g.nextNode ∧ t.index < g.tensors.length
  /-- No edge is there twice. -/
  nodup : g.edges.Nodup
  /-- Edges join nodes of the graph. -/
  ends : ∀ e ∈ g.edges, g.isLive e.source ∧ g.isLive e.target

/-- Seen from outside or by their dependencies, the tables fit together in the same cases. -/
theorem Graph.Container.wellFormed {g : Graph} (h : g.Container) : g.WellFormed where
  indexed := h.names
  stored := h.stored
  registered := h.registered
  contract := h.contract
  claimed id node hnode t ht := (producer?_eq_some.mp ((h.producer t id).mpr ⟨node, hnode, ht⟩)).1
  produced id node hnode t ht := by
    obtain ⟨other, hother, hmem⟩ :=
      (h.producer t id).mp (producer?_eq_some.mpr ⟨ht, isLive_of_node? hnode⟩)
    rw [hnode] at hother
    cases hother
    exact hmem
  recorded := h.recorded
  nodup := h.nodup
  ends := h.ends

theorem Graph.WellFormed.container {g : Graph} (h : g.WellFormed) : g.Container where
  names := h.indexed
  distinct x y t u hx hy hname := by
    have hfound : g.tensorNamed? u.name = some x := (h.indexed u.name x).mpr ⟨t, hx, hname⟩
    rw [(h.indexed u.name y).mpr ⟨u, hy, rfl⟩] at hfound
    exact (Option.some.inj hfound).symm
  stored := h.stored
  registered := h.registered
  contract := h.contract
  once t id id' node node' hnode hnode' ht ht' := by
    have hproducer : g.producer? t = some id := h.producer?_iff.mpr ⟨node, hnode, ht⟩
    rw [h.producer?_iff.mpr ⟨node', hnode', ht'⟩] at hproducer
    exact (Option.some.inj hproducer).symm
  producer _ _ := h.producer?_iff
  recorded := h.recorded
  nodup := h.nodup
  ends := h.ends

/-! ## Results about runs -/

/-- Calls that build a convolution of two inputs, with an output of a given type. -/
def convolutionCalls (outputType : ElementType) : List Call :=
  [.addInput (.computed "x" ⟨.f32, ⟨[1, 1, 2, 2]⟩⟩ none),
    .addInput (.computed "w" ⟨.f32, ⟨[1, 1, 1, 1]⟩⟩ none),
    .addTensor (.computed "y" ⟨outputType, ⟨[1, 1, 2, 2]⟩⟩ none),
    .addComposite (.convolution ⟨⟨0⟩, ⟨1⟩, none, ⟨2⟩, .unit 2, .none⟩)]

/-- After any calls the tables of the graph fit together. If no edge was put in by hand, every edge
leads from the producer of its tensor to a node that reads it. -/
theorem World.container_after {calls : List Call} {w : World} (h : World.after calls = some w) :
    w.graph.Container ∧
    ((∀ call ∈ calls, ¬ call.isConnect) → ∀ e ∈ w.graph.edges, w.graph.Dataflow e) :=
  ⟨(World.after_sound h).wellFormed.container, (World.after_sound h).flows⟩

/-- The convolution gets a reader and is lowered; then the reader is detached, and restoring its
edges finds nothing to do. -/
theorem World.container_after_lowering :
    ∃ w, World.after (convolutionCalls .f32 ++
        [.markOutput ⟨2⟩, .lowerGraph .default, .detach ⟨3⟩, .restore 0]) = some w ∧
      w.graph.edges.length = 9 ∧ w.graph.Container ∧ ∀ e ∈ w.graph.edges, w.graph.Dataflow e := by
  have hedges : (World.after (convolutionCalls .f32 ++
      [.markOutput ⟨2⟩, .lowerGraph .default, .detach ⟨3⟩, .restore 0])).map
        (·.graph.edges.length) = some 9 := by
    decide +kernel
  obtain ⟨w, hw, hlength⟩ := Option.map_eq_some_iff.mp hedges
  obtain ⟨hcontainer, hflow⟩ := World.container_after hw
  exact ⟨w, hw, hlength, hcontainer, hflow (by decide)⟩

/-- A lowering that is rejected leaves a graph with the same contents. -/
theorem Edit.sameContents_of_rejected {calls : List Call} {w : World} {id : NodeId}
    {options : Options} {e : LowerError} {s : Session} (hcalls : World.after calls = some w)
    (hconnect : ∀ call ∈ calls, ¬ call.isConnect)
    (hrejected : Edit.lowerNode id options w.session = .error (.rejected e) s) :
    w.graph.SameContents s.graph := by
  have hsound := World.after_sound hcalls
  exact ((lowerNode_run id options w.session).2 e s hrejected).sameContents hsound.wellFormed
    (hsound.flows hconnect)

def Edit.success? {α : Type} (edit : Edit α) (s : Session) : Option (α × Session) :=
  match edit s with
  | .ok a s' => some (a, s')
  | .error _ _ => none

theorem Edit.success?_eq_some {α : Type} {edit : Edit α} {s s' : Session} {a : α}
    (h : edit.success? s = some (a, s')) :
    edit s = .ok a s' := by
  unfold success? at h
  split at h
  · next hrun =>
    cases h
    exact hrun
  · cases h

def Edit.rejection? {α : Type} (edit : Edit α) (s : Session) : Option (LowerError × Session) :=
  match edit s with
  | .error (.rejected e) s' => some (e, s')
  | _ => none

theorem Edit.rejection?_eq_some {α : Type} {edit : Edit α} {s s' : Session} {e : LowerError}
    (h : edit.rejection? s = some (e, s')) : edit s = .error (.rejected e) s' := by
  unfold rejection? at h
  split at h
  · next hrun =>
    cases h
    exact hrun
  · cases h

/-- The convolution has an output of another type than its input. Its lowering is rejected when two
operators with their constants are already in the graph. -/
theorem Edit.sameContents_of_mistyped_convolution :
    ∃ w e s, World.after (convolutionCalls .i32) = some w ∧
      lowerNode ⟨2⟩ .default w.session = .error (.rejected e) s ∧
      s.graph.nextNode = w.graph.nextNode + 4 ∧
      w.graph.SameContents s.graph := by
  have hrun : ((World.after (convolutionCalls .i32)).bind fun w =>
      ((lowerNode ⟨2⟩ .default).rejection? w.session).map fun r =>
        r.2.graph.nextNode - w.graph.nextNode) = some 4 := by
    decide +kernel
  obtain ⟨w, hw, hlower⟩ := Option.bind_eq_some_iff.mp hrun
  obtain ⟨⟨e, s⟩, hrejection, hnext⟩ := Option.map_eq_some_iff.mp hlower
  have hrejected := rejection?_eq_some hrejection
  have hadded : s.graph.nextNode - w.graph.nextNode = 4 := hnext
  exact ⟨w, e, s, hw, hrejected, by omega, sameContents_of_rejected hw (by decide) hrejected⟩

end GraphLowering
