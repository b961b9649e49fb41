import GraphLowering.Proofs.WholeGraph

/-!
# What a lowering changes and what it leaves alone

A composite that is lowered is gone, and `Graph.Frame` says how the graph differs otherwise: tensors
are appended, all other nodes and the edges between them stay, and the new nodes are the operators
that are returned and constants. The last of these operators takes the place of the composite. It
produces the output, and its readers are those of the composite, in the same order: no edge starts
at it when the chain is inserted (`Graph.source_ne_insert`), the first pass over the neighbours adds
edges from older nodes only, and the second one adds its edges one after the other
(`Graph.successors_restored`). A composite that reads its own output is no reader of what takes its
place.
-/

namespace GraphLowering

namespace Graph

/-- A composite with a given output is replaced by the operators `ids`, and all else is as it was. -/
structure Frame (g : Graph) (id : NodeId) (output : TensorId)
    (ids : List NodeId) (g' : Graph) : Prop where
  /-- Tensors are appended. -/
  tensors : g.tensors <+: g'.tensors
  kept : ∀ n node, n ≠ id → g.node? n = some node → g'.node? n = some node
  gone : g'.node? id = none
  inputs : g'.inputs = g.inputs
  outputs : g'.outputs = g.outputs
  /-- The edges that do not touch the composite stay as they are, and those that are added touch a
  new node. -/
  edges : ∃ added, g'.edges = g.edges.filter (fun e => e.target != id && e.source != id) ++ added ∧
    ∀ e ∈ added, g.nextNode ≤ e.source.index ∨ g.nextNode ≤ e.target.index
  /-- New nodes have new numbers, and they are constants or operators that a lowering put in. -/
  fresh : ∀ n node, g'.node? n = some node → g.node? n = none →
    g.nextNode ≤ n.index ∧
    ((∃ t, node.kind = .constant t) ∨ (∃ op, node.kind = .operator op) ∧ node.lowered)
  ascending : ids.Pairwise fun a b => a.index < b.index
  listed : ∀ n, n ∈ ids ↔
    ∃ node op, g'.node? n = some node ∧ g.node? n = none ∧ node.kind = .operator op
  /-- The last operator takes the place of the composite. -/
  last : ∃ n, ids.getLast? = some n ∧ g'.producer? output = some n ∧
    g'.successors n = (g.successors id).filter (· ≠ id)
  /-- Other tensors keep their producers. -/
  producers : ∀ t n, t ≠ output → g.producer? t = some n → g'.producer? t = some n

variable {g g' : Graph} {id n : NodeId} {node : Node} {op : Operator}
  {chain early : List Operator} {ids : List NodeId}
  {d : Detachment} {e : Edge}

/-! ## Readers in order -/

theorem successors_addEdge_of_ne (hne : e.source ≠ n) :
    (g.addEdge e).successors n = g.successors n := by
  unfold addEdge successors
  split
  · rfl
  · rw [List.filter_append, List.filter_cons_of_neg (by simpa using hne),
      List.filter_nil, List.append_nil]

theorem successors_addEdge (hnew : e ∉ g.edges) :
    (g.addEdge e).successors e.source = g.successors e.source ++ [e.target] := by
  unfold addEdge successors
  rw [if_neg hnew, List.filter_append, List.filter_cons_of_pos (by simp),
    List.filter_nil, List.map_append]
  rfl

theorem successors_feedReaders {p : NodeId × TensorId} (hne : p.1 ≠ n) :
    (g.feedReaders d p).successors n = g.successors n := by
  have hreaders : ∀ (targets : List NodeId) (k : Graph),
      (targets.foldl (fun g target => g.addEdge ⟨p.1, target, p.2⟩) k).successors n =
        k.successors n := by
    intro targets
    induction targets with
    | nil => exact fun _ => rfl
    | cons target rest ih => exact fun k => (ih _).trans (successors_addEdge_of_ne hne)
  unfold feedReaders
  split
  · exact hreaders _ g
  · rfl

theorem successors_foldl_feedReaders {ps : List (NodeId × TensorId)} (hne : ∀ p ∈ ps, p.1 ≠ n) :
    (ps.foldl (feedReaders d) g).successors n = g.successors n := by
  induction ps generalizing g with
  | nil => rfl
  | cons p rest ih =>
    obtain ⟨hhead, hrest⟩ := List.forall_mem_cons.mp hne
    exact (ih hrest).trans (successors_feedReaders hhead)

/-- Readers that are passed on to one producer become its readers one after the other. -/
theorem successors_foldl_passOn {ps : List (TensorId × NodeId)} (hnodup : ps.Nodup)
    (hlive : ∀ p ∈ ps, g.isLive p.2) (hproducer : ∀ p ∈ ps, g.producer? p.1 = some n)
    (hnew : ∀ p ∈ ps, ⟨n, p.2, p.1⟩ ∉ g.edges) :
    (ps.foldl passOn g).successors n = g.successors n ++ ps.map (·.2) := by
  induction ps generalizing g with
  | nil => exact (List.append_nil _).symm
  | cons p rest ih =>
    obtain ⟨hp, hnodup⟩ := List.nodup_cons.mp hnodup
    obtain ⟨hliveHead, hlive⟩ := List.forall_mem_cons.mp hlive
    obtain ⟨hproducerHead, hproducer⟩ := List.forall_mem_cons.mp hproducer
    obtain ⟨hnewHead, hnew⟩ := List.forall_mem_cons.mp hnew
    have hpass : g.passOn p = g.addEdge ⟨n, p.2, p.1⟩ := by
      unfold passOn
      rw [if_pos hliveHead, hproducerHead]
    rw [List.foldl_cons, hpass, ih hnodup, successors_addEdge hnewHead, List.append_assoc]
    · rfl
    · intro q hq
      rw [isLive_addEdge]
      exact hlive q hq
    · intro q hq
      rw [producer?_addEdge]
      exact hproducer q hq
    · intro q hq hmem
      rcases mem_edges_addEdge.mp hmem with heq | hold
      · cases Prod.ext (congrArg Edge.tensor heq) (congrArg Edge.target heq)
        exact hp hq
      · exact hnew q hq hold

/-- A node at which no edge starts, and which produces what the readers of a detached node read,
gets these readers. -/
theorem successors_restored (hsources : ∀ e ∈ g.edges, e.source ≠ n)
    (hpredecessors : ∀ p ∈ d.predecessors, p.1 ≠ n) (hnodup : d.successors.Nodup)
    (hlive : ∀ p ∈ d.successors, g.isLive p.2)
    (hproducer : ∀ p ∈ d.successors, g.producer? p.1 = some n) :
    (g.restored d).successors n = d.successors.map (·.2) := by
  have hviews := foldl_feedReaders_views d g d.predecessors
  have hnone : (d.predecessors.foldl (feedReaders d) g).successors n = [] := by
    rw [successors_foldl_feedReaders hpredecessors]
    refine List.eq_nil_iff_forall_not_mem.mpr fun target htarget => ?_
    obtain ⟨t, he⟩ := mem_successors.mp htarget
    exact hsources _ he rfl
  unfold restored
  rw [successors_foldl_passOn hnodup, hnone, List.nil_append]
  · intro p hp
    rw [isLive_eq_isSome, hviews.2]
    exact hlive p hp
  · intro p hp
    rw [hviews.1]
    exact hproducer p hp
  · intro p _ hmem
    have hreader := mem_successors.mpr ⟨p.1, hmem⟩
    rw [hnone] at hreader
    cases hreader

theorem nodup_successors_detachment (hwf : g.WellFormed) : (g.detachment id node).successors.Nodup := by
  refine List.Nodup.map_on ?_ (hwf.nodup.filter _)
  intro e he e' he' heq
  have hsource : e.source = id ∧ e'.source = id := by
    simp only [List.mem_filter, Bool.and_eq_true, beq_iff_eq] at he he'
    exact ⟨he.2.2, he'.2.2⟩
  obtain ⟨htensor, htarget⟩ := Prod.mk.inj heq
  cases e
  cases e'
  simp_all

theorem targets_detachment :
    (g.detachment id node).successors.map (·.2) = (g.successors id).filter (· ≠ id) := by
  show ((g.edges.filter _).map _).map _ = ((g.edges.filter _).map _).filter _
  rw [List.map_map, List.filter_map, List.filter_filter]
  congr 1
  refine List.filter_congr fun e _ => ?_
  by_cases htarget : e.target = id <;> simp [htarget]

/-! ## The operators of a chain -/

theorem Emits.split_last (hemits : g.Emits (early ++ [op]) ids g') :
    ∃ ids₁ g₁, g.Emits early ids₁ g₁ ∧ ids = ids₁ ++ [⟨g₁.nextNode⟩] ∧
      g₁.Accepts (.operator op) true ∧
      g' = g₁.insert (.operator op) true := by
  induction early generalizing g ids with
  | nil =>
    cases hemits with
    | cons hcontract haccepted hrest =>
      cases hrest
      exact ⟨[], g, .nil, rfl, .of_operator hcontract haccepted, rfl⟩
  | cons first rest ih =>
    cases hemits with
    | cons hcontract haccepted hrest =>
      obtain ⟨ids₁, g₁, hearly, rfl, hlast⟩ := ih hrest
      exact ⟨⟨g.nextNode⟩ :: ids₁, g₁, .cons hcontract haccepted hearly, rfl, hlast⟩

theorem Emits.mem_ids (hemits : g.Emits chain ids g') (hwf : g.WellFormed)
    (hnode : g'.node? n = some node) (hkind : node.kind = .operator op)
    (hnew : g.nextNode ≤ n.index) : n ∈ ids := by
  induction hemits with
  | nil => exact absurd (hwf.stored n node hnode).2 (Nat.not_lt.mpr hnew)
  | @cons g g' first rest ids hcontract haccepted hrest ih =>
    have haccepts := Accepts.of_operator hcontract haccepted
    have hwf' := haccepts.grows.wellFormed hwf
    by_cases hlater : (g.insert (.operator first) true).nextNode ≤ n.index
    · exact List.mem_cons_of_mem _ (ih hwf' hnode hlater)
    · rw [hrest.grown.node?_of_lt (Nat.lt_of_not_le hlater)] at hnode
      rcases node?_insert hwf haccepts hnode with hold | ⟨rfl, _⟩ | ⟨_, t, hconstant⟩
      · exact absurd (hwf.stored n node hold).2 (Nat.not_lt.mpr hnew)
      · exact List.mem_cons_self
      · rw [hkind] at hconstant
        cases hconstant

theorem source_ne_insert (hwf : g.WellFormed) (haccepts : g.Accepts (.operator op) true)
    (hself : ∀ t ∈ op.inputs, t ∉ op.outputs) (he : e ∈ (g.insert (.operator op) true).edges) :
    e.source ≠ ⟨g.nextNode⟩ := by
  intro hsource
  rcases (mem_edges_insert hwf haccepts).mp he with hold | ⟨htarget, hproducer, hreads⟩
  · have hlt := hwf.lt_of_live (hwf.ends e hold).1
    rw [hsource] at hlt
    exact Nat.lt_irrefl _ hlt
  · have hread : e.tensor ∈ op.inputs := by
      rcases (reads_insert hwf haccepts).mp hreads with hold | ⟨_, hmem⟩
      · have hlt := hwf.lt_of_live hold.live
        rw [htarget] at hlt
        exact absurd hlt (Nat.lt_irrefl _)
      · exact hmem
    rw [hsource] at hproducer
    obtain ⟨maker, hmaker, hmade⟩ := (haccepts.grows.wellFormed hwf).producer?_iff.mp hproducer
    rw [node?_insert_self] at hmaker
    cases hmaker
    exact hself _ hread hmade

/-! ## Parts of the frame -/

/-- The edges that are added while a composite is replaced touch a new node. -/
theorem Grows.edges_frame (hgrows : Grows (g.detachment id node).Permits (g.eraseNode id) g')
    (hwf : g.WellFormed) (hflows : g.Flows) :
    ∃ added, g'.edges = g.edges.filter (fun e => e.target != id && e.source != id) ++ added ∧
      ∀ e ∈ added, g.nextNode ≤ e.source.index ∨ g.nextNode ≤ e.target.index := by
  obtain ⟨added, hadded⟩ := hgrows.edges_extend
  refine ⟨added, hadded.symm, fun e he => ?_⟩
  by_contra hold
  rw [not_or, Nat.not_le, Nat.not_le] at hold
  have hmem : e ∈ g'.edges := by
    rw [← hadded]
    exact List.mem_append_right _ he
  have hbefore := mem_edges_of_old hwf hflows hgrows hmem hold.1 hold.2
  have hnodup := (hgrows.wellFormed (hwf.eraseNode id)).nodup
  rw [← hadded] at hnodup
  exact (List.nodup_append.mp hnodup).2.2 e hbefore e he rfl

theorem Grows.producers_frame {allowed : Graph → Edge → Prop}
    (hgrows : Grows allowed (g.eraseNode id) g') (hwf : g.WellFormed) {composite : Composite}
    (hnode : g.node? id = some node) (hkind : node.kind = .composite composite) {t : TensorId}
    (ht : t ≠ composite.output) (hproducer : g.producer? t = some n) : g'.producer? t = some n := by
  refine hgrows.producer? (hwf.eraseNode id) (producer?_eraseNode.mpr ⟨hproducer, ?_⟩)
  rintro rfl
  exact ht (hwf.eq_output hnode hkind hproducer)

theorem Emits.fresh {drafted emitted : Graph} (hemits : drafted.Emits chain ids emitted)
    (hregisters : (g.eraseNode id).Registers drafted) (hwf : g.WellFormed)
    (hnode : emitted.node? n = some node) (hnone : g.node? n = none) :
    g.nextNode ≤ n.index ∧
    ((∃ t, node.kind = .constant t) ∨ (∃ op, node.kind = .operator op) ∧ node.lowered) := by
  have hdrafted := hregisters.wellFormed (hwf.eraseNode id)
  have hnext : drafted.nextNode = g.nextNode := hregisters.nextNode_eq
  have hlabelled : drafted.Labelled drafted.nextNode := by
    intro m other hm hother
    exact absurd (hdrafted.stored m other hother).2 (Nat.not_lt.mpr hm)
  rcases hemits.brought hdrafted hnode with hold | ⟨hnew, hbrought⟩
  · rw [hregisters.node?] at hold
    rw [(node?_of_eraseNode hold).2] at hnone
    cases hnone
  · have hlowered := (hemits.labelled hlabelled n node hnew hnode).2
    refine ⟨hnext ▸ hnew, ?_⟩
    rcases hbrought with ⟨o, _, hkind⟩ | ⟨t, hkind, _⟩
    · rw [hkind] at hlowered
      exact .inr ⟨⟨o, hkind⟩, hlowered⟩
    · exact .inl ⟨t, hkind⟩

theorem Emits.mem_ids_iff {drafted emitted : Graph} (hemits : drafted.Emits chain ids emitted)
    (hregisters : (g.eraseNode id).Registers drafted) (hwf : g.WellFormed) :
    n ∈ ids ↔ ∃ node op, emitted.node? n = some node ∧ g.node? n = none ∧ node.kind = .operator op := by
  have hnext : drafted.nextNode = g.nextNode := hregisters.nextNode_eq
  constructor
  · intro hn
    obtain ⟨name, op, hnode⟩ := hemits.node?_of_mem hn
    have hnew := hemits.ascending.2 n hn
    rw [hnext] at hnew
    exact ⟨_, op, hnode, hwf.unnamed_nextNode hnew, rfl⟩
  · rintro ⟨node, op, hnode, hnone, hkind⟩
    refine hemits.mem_ids (hregisters.wellFormed (hwf.eraseNode id)) hnode hkind ?_
    rw [hnext]
    exact (hemits.fresh hregisters hwf hnode hnone).1

theorem Emits.last_frame {drafted emitted : Graph} {composite : Composite}
    (hemits : drafted.Emits chain ids emitted) (hregisters : (g.eraseNode id).Registers drafted)
    (hcloses : Chain.Closes g.tensors.length composite.output chain) (hwf : g.WellFormed)
    (hflows : g.Flows) (hnode : g.node? id = some node) (hkind : node.kind = .composite composite) :
    ∃ n, ids.getLast? = some n ∧
      (emitted.restored (g.detachment id node)).producer? composite.output = some n ∧
      (emitted.restored (g.detachment id node)).successors n = (g.successors id).filter (· ≠ id) := by
  have hgrows : Grows (fun _ _ => True) (g.eraseNode id) emitted := hregisters.grows.trans hemits.grown
  obtain ⟨early, o, rfl, houtputs, hinputs⟩ := hcloses
  obtain ⟨ids₁, g₁, hearly, rfl, haccepts, rfl⟩ := hemits.split_last
  have hwf₁ := hearly.grown.wellFormed (hregisters.wellFormed (hwf.eraseNode id))
  have hnext : g.nextNode ≤ g₁.nextNode := Nat.le_trans hregisters.nextNode_le hearly.grown.nextNode_le
  have hself : ∀ t ∈ o.inputs, t ∉ o.outputs := by
    intro t ht hmade
    rw [houtputs, List.mem_singleton] at hmade
    have hnew := hinputs t ht
    rw [hmade] at hnew
    exact absurd (hwf.output_lt hnode hkind) (Nat.not_lt.mpr hnew)
  have hproducer : (g₁.insert (.operator o) true).producer? composite.output = some ⟨g₁.nextNode⟩ := by
    refine producer?_insert_self hwf₁ haccepts ?_
    show composite.output ∈ o.outputs
    rw [houtputs]
    exact List.mem_singleton_self _
  refine ⟨⟨g₁.nextNode⟩, List.getLast?_concat, (producer?_restored _ _ _).trans hproducer, ?_⟩
  rw [successors_restored (fun e he => source_ne_insert hwf₁ haccepts hself he)
    ?_ (nodup_successors_detachment hwf), targets_detachment]
  · rintro ⟨t, target⟩ hp
    obtain ⟨he, hne⟩ := mem_successors_detachment.mp hp
    have hlive := (hwf.ends _ he).2
    rw [isLive_eq_isSome, hgrows.node?_of_lt (hwf.lt_of_live hlive), ← isLive_eq_isSome]
    exact isLive_eraseNode.mpr ⟨hlive, hne⟩
  · rintro ⟨t, target⟩ hp
    obtain ⟨he, _⟩ := mem_successors_detachment.mp hp
    obtain rfl : t = composite.output := hwf.eq_output hnode hkind (hflows _ he).1
    exact hproducer
  · rintro ⟨source, t⟩ hp rfl
    have hlt := hwf.lt_of_live (hwf.ends _ (mem_predecessors_detachment.mp hp)).1
    exact absurd hlt (Nat.not_lt.mpr hnext)

end Graph

/-! ## Lowering a node -/

section Lowering

variable {s s' : Session} {d : Detachment}

theorem Edit.emit_restored {chain : List Operator} {ids : List NodeId}
    (hnew : d.firstNew ≤ s.graph.nextNode) (h : emit chain d s = .ok ids s') :
    ∃ emitted, s.graph.Emits chain ids emitted ∧ s'.graph = emitted.restored d := by
  unfold emit at h
  obtain ⟨_, s₁, hchain, hrest⟩ := run_bind_eq_ok.mp h
  obtain ⟨_, s₂, hrestore, hnote⟩ := run_bind_eq_ok.mp hrest
  cases hnote
  exact ⟨s₁.graph, ((mapM_emitOperator_ends chain hnew).of_ok hchain).2,
    (restore_ends.of_ok hrestore).2.2⟩

theorem Outline.place_restored {o : Outline} {result : Lowered}
    (hnew : d.firstNew ≤ s.graph.nextNode) (h : o.place d s = .ok result s') :
    ∃ emitted, s.graph.Emits o.chain result.nodes emitted ∧ s'.graph = emitted.restored d := by
  unfold place at h
  obtain ⟨ids, s₁, hemit, hrest⟩ := run_bind_eq_ok.mp h
  have hplaced := Edit.emit_restored hnew hemit
  split at hrest
  · obtain ⟨_, s₂, hverify, hpure⟩ := run_bind_eq_ok.mp hrest
    obtain ⟨rfl, _⟩ := (Edit.verify_ends _).of_ok hverify
    cases hpure
    exact hplaced
  · cases hrest
    exact hplaced

/-- Lowering a composite replaces it by the operators that are returned, and changes nothing else. -/
theorem Edit.lowerNode_frame {calls : List Call} {w : World} {id : NodeId} {options : Options}
    {result : Lowered} (hcalls : World.after calls = some w)
    (hconnect : ∀ call ∈ calls, ¬ call.isConnect)
    (hlower : lowerNode id options w.session = .ok result s') :
    ∃ node op, w.graph.node? id = some node ∧ node.kind = .composite op ∧
      w.graph.Frame id op.output result.nodes s'.graph := by
  have hsound := World.after_sound hcalls
  have hwf := hsound.wellFormed
  have hflows := hsound.flows hconnect
  have hlowers := (lowerNode_run id options w.session).1 result s' hlower
  have hkept : ∀ n node, n ≠ id → w.graph.node? n = some node → s'.graph.node? n = some node :=
    fun _ _ hne hnode => hlowers.node?_of_ne hwf hnode hne
  obtain ⟨node, op, hnode, hkind, hgrows, _⟩ := hlowers
  obtain ⟨o, t, s₁, houtline, hplace, hs'⟩ := lowerNode_place hnode hkind hlower
  obtain ⟨hregisters, hdrafts⟩ := Composite.outlines_of_ok houtline
  obtain ⟨emitted, hemits, hs₁⟩ := o.place_restored hregisters.nextNode_le hplace
  rw [hs₁] at hs'
  have hnodes (n : NodeId) : s'.graph.node? n = emitted.node? n := by
    rw [hs', Graph.node?_restored]
  refine ⟨node, op, hnode, hkind, ?_⟩
  exact
    { tensors := hgrows.tensors_extend
      kept := hkept
      gone := by rw [hgrows.node?_of_lt (hwf.stored id node hnode).2, Graph.node?_eraseNode, if_pos rfl]
      inputs := hgrows.boundary.1
      outputs := hgrows.boundary.2
      edges := hgrows.edges_frame hwf hflows
      fresh := fun n _ hother hnone => hemits.fresh hregisters hwf ((hnodes n).symm.trans hother) hnone
      ascending := hemits.ascending.1
      listed := fun n => by
        rw [hnodes]
        exact hemits.mem_ids_iff hregisters hwf
      last := by
        rw [hs']
        exact hemits.last_frame hregisters (hdrafts t.graph (List.prefix_refl _)).closes
          hwf hflows hnode hkind
      producers := fun _ _ ht hproducer => hgrows.producers_frame hwf hnode hkind ht hproducer }

/-- A convolution reads its own output, and two others read it too. The last operator of its chain
gets the two others. -/
theorem Edit.lowerNode_frame_own_reader :
    ∃ w result s', World.after [.addInput (.computed "w" ⟨.f32, ⟨[1, 1, 1, 1]⟩⟩ none),
        .addTensor (.computed "y" ⟨.f32, ⟨[1, 1, 2, 2]⟩⟩ none),
        .addComposite (.convolution ⟨⟨1⟩, ⟨0⟩, none, ⟨1⟩, .unit 2, .none⟩),
        .markOutput ⟨1⟩, .markOutput ⟨1⟩] = some w ∧
      lowerNode ⟨1⟩ .default w.session = .ok result s' ∧
      w.graph.successors ⟨1⟩ = [⟨1⟩, ⟨2⟩, ⟨3⟩] ∧
      w.graph.Frame ⟨1⟩ ⟨1⟩ result.nodes s'.graph := by
  have hrun : ((World.after [.addInput (.computed "w" ⟨.f32, ⟨[1, 1, 1, 1]⟩⟩ none),
      .addTensor (.computed "y" ⟨.f32, ⟨[1, 1, 2, 2]⟩⟩ none),
      .addComposite (.convolution ⟨⟨1⟩, ⟨0⟩, none, ⟨1⟩, .unit 2, .none⟩),
      .markOutput ⟨1⟩, .markOutput ⟨1⟩]).bind fun w =>
        ((lowerNode ⟨1⟩ .default).success? w.session).map fun _ =>
        (w.graph.successors ⟨1⟩, (w.graph.node? ⟨1⟩).map (·.kind))) =
      some ([⟨1⟩, ⟨2⟩, ⟨3⟩],
        some (.composite (.convolution ⟨⟨1⟩, ⟨0⟩, none, ⟨1⟩, .unit 2, .none⟩))) := by
    decide +kernel
  obtain ⟨w, hw, hlower⟩ := Option.bind_eq_some_iff.mp hrun
  obtain ⟨⟨result, s'⟩, hsuccess, hfacts⟩ := Option.map_eq_some_iff.mp hlower
  obtain ⟨hsuccessors, hcomposite⟩ := Prod.mk.inj hfacts
  have hok := success?_eq_some hsuccess
  obtain ⟨node, op, hnode, hkind, hframe⟩ := lowerNode_frame hw (by decide) hok
  rw [hnode, Option.map_some, hkind] at hcomposite
  cases hcomposite
  exact ⟨w, result, s', hw, hok, hsuccessors, hframe⟩

end Lowering

end GraphLowering
