import GraphLowering.Proofs.Boundary

/-!
# Putting a detached node back after insertions

After a node was detached, any number of things may be inserted, also model inputs, model outputs
and edges by hand (`Graph.Fills`). Putting the node back drops what was inserted by its numbers.
That brings back the tensors, their names, the nodes and the producers. It does not bring back all:
the lists of model inputs and outputs stay as they are by then, and so do edges that were put in by
hand between nodes that were there before (`Graph.Reinstated`). A model input that was added since
is left in the list without its tensor.
-/

namespace GraphLowering

namespace Call

def isInsertion : Call → Bool
  | addTensor _ | addInput _ | markOutput _ | addOperator .. | addComposite _ | connect .. => true
  | _ => false

def isListing : Call → Bool
  | addInput _ | markOutput _ => true
  | _ => false

end Call

namespace Graph

def relisted (g : Graph) (inputs outputs : List TensorId) : Graph :=
  { g with inputs, outputs }

variable {g g' : Graph} {calls : List Call} {permitted : Edge → Prop}

theorem relisted_of_boundary (h : g'.inputs = g.inputs ∧ g'.outputs = g.outputs) :
    g'.relisted g.inputs g.outputs = g' := by
  rw [← h.1, ← h.2]
  rfl

theorem relisted_addEdge (g : Graph) (e : Edge) (inputs outputs : List TensorId) :
    (g.addEdge e).relisted inputs outputs = (g.relisted inputs outputs).addEdge e := by
  unfold addEdge relisted
  split <;> rfl

theorem relisted_foldl_addEdge {α : Type} (edge : α → Edge) (xs : List α) (g : Graph)
    (inputs outputs : List TensorId) :
    (xs.foldl (fun g x => g.addEdge (edge x)) g).relisted inputs outputs =
      xs.foldl (fun g x => g.addEdge (edge x)) (g.relisted inputs outputs) := by
  induction xs generalizing g with
  | nil => rfl
  | cons x rest ih => rw [List.foldl_cons, List.foldl_cons, ih, relisted_addEdge]

theorem relisted_rolledBack (before : Graph) (id : NodeId) (node : Node) (g : Graph)
    (inputs outputs : List TensorId) :
    (before.rolledBack id node g).relisted inputs outputs =
      before.rolledBack id node (g.relisted inputs outputs) := by
  unfold rolledBack putBack
  rw [relisted_foldl_addEdge fun p : TensorId × NodeId => ⟨_, p.2, p.1⟩,
    relisted_foldl_addEdge fun p : NodeId × TensorId => ⟨p.1, _, p.2⟩]
  rfl

theorem Added.relisted (h : Added (fun _ => permitted) g g') (inputs outputs : List TensorId) :
    Added (fun _ => permitted) (g.relisted inputs outputs) (g'.relisted inputs outputs) := by
  cases h with
  | tensor hfresh => exact .tensor hfresh
  | node haccepted hcontract => exact .node haccepted hcontract
  | constant hknown hconst hfree => exact .constant hknown hconst hfree
  | edge hsource htarget hpermitted =>
    rw [relisted_addEdge]
    exact .edge hsource htarget hpermitted

theorem Grows.relisted (h : Grows (fun _ => permitted) g g') (inputs outputs : List TensorId) :
    Grows (fun _ => permitted) (g.relisted inputs outputs) (g'.relisted inputs outputs) := by
  induction h with
  | refl => exact .refl
  | tail _ hstep ih => exact ih.tail (hstep.relisted inputs outputs)

theorem Grows.mem_edges (h : Grows (fun _ => permitted) g g') {e : Edge} (he : e ∈ g'.edges) :
    e ∈ g.edges ∨ permitted e := by
  induction h with
  | refl => exact .inl he
  | tail _ hstep ih =>
    cases hstep with
    | tensor _ => exact ih he
    | node _ _ => exact ih he
    | constant _ _ _ => exact ih he
    | edge _ _ hpermitted =>
      rcases mem_edges_addEdge.mp he with rfl | he
      · exact .inr hpermitted
      · exact ih he

/-! ## Insertions -/

/-- What insertions do: things are added, with edges to new nodes or by hand, and model inputs and
outputs are listed. A model input that is listed is a new tensor. -/
structure Fills (calls : List Call) (g g' : Graph) : Prop where
  grows : Grows (fun _ e => g.nextNode ≤ e.target.index ∨ .connect e.source e.target e.tensor ∈ calls) g
    (g'.relisted g.inputs g.outputs)
  inputs : ∃ more, g'.inputs = g.inputs ++ more ∧ ∀ t ∈ more, g.tensors.length ≤ t.index
  outputs : g.outputs <+: g'.outputs
  unlisted : (∀ call ∈ calls, ¬ call.isListing) → g'.inputs = g.inputs ∧ g'.outputs = g.outputs

theorem Fills.of_grows
    (h : Grows
      (fun _ e => g.nextNode ≤ e.target.index ∨ .connect e.source e.target e.tensor ∈ calls) g g') :
    g.Fills calls g' where
  grows := by
    rw [relisted_of_boundary h.boundary]
    exact h
  inputs := ⟨[], by rw [h.boundary.1, List.append_nil], fun _ ht => nomatch ht⟩
  outputs := ⟨[], by rw [h.boundary.2, List.append_nil]⟩
  unlisted _ := h.boundary

instance : Std.Refl (Fills calls) :=
  ⟨fun _ => .of_grows .refl⟩

instance : IsTrans Graph (Fills calls) where
  trans g g' g'' h h' := by
    have hnext : g.nextNode ≤ g'.nextNode := h.grows.nextNode_le
    have htensors : g.tensors.length ≤ g'.tensors.length := h.grows.length_le
    obtain ⟨more, hmore, hnew⟩ := h.inputs
    obtain ⟨more', hmore', hnew'⟩ := h'.inputs
    refine ⟨?_, ⟨more ++ more', ?_, ?_⟩, h.outputs.trans h'.outputs, fun hunlisted => ?_⟩
    · refine h.grows.trans (Grows.weaken (h'.grows.relisted g.inputs g.outputs) fun _ e hallowed => ?_)
      exact hallowed.imp_left fun hfirst => Nat.le_trans hnext hfirst
    · rw [hmore', hmore, List.append_assoc]
    · intro t ht
      rcases List.mem_append.mp ht with ht | ht
      · exact hnew t ht
      · exact Nat.le_trans htensors (hnew' t ht)
    · obtain ⟨hinputs, houtputs⟩ := h.unlisted hunlisted
      obtain ⟨hinputs', houtputs'⟩ := h'.unlisted hunlisted
      exact ⟨hinputs'.trans hinputs, houtputs'.trans houtputs⟩

theorem Fills.listInput (h : g.Fills calls g') (hlisting : ∃ call ∈ calls, call.isListing)
    {t : TensorId} (ht : g.tensors.length ≤ t.index) :
    g.Fills calls { g' with inputs := g'.inputs ++ [t] } := by
  obtain ⟨more, hmore, hnew⟩ := h.inputs
  refine ⟨h.grows, ⟨more ++ [t], ?_, ?_⟩, h.outputs, fun hunlisted => ?_⟩
  · rw [hmore, List.append_assoc]
  · intro u hu
    rcases List.mem_append.mp hu with hu | hu
    · exact hnew u hu
    · rw [List.mem_singleton.mp hu]
      exact ht
  · obtain ⟨call, hmem, hcall⟩ := hlisting
    exact absurd hcall (hunlisted call hmem)

theorem Fills.listOutput (h : g.Fills calls g') (hlisting : ∃ call ∈ calls, call.isListing)
    (t : TensorId) :
    g.Fills calls { g' with outputs := g'.outputs ++ [t] } := by
  refine ⟨h.grows, h.inputs, h.outputs.trans (List.prefix_append _ _), fun hunlisted => ?_⟩
  obtain ⟨call, hmem, hcall⟩ := hlisting
  exact absurd hcall (hunlisted call hmem)

end Graph

namespace Edit

variable {s : Session} {calls : List Call}

theorem addTensor_fills (t : Tensor) :
    Ends (Along (Graph.Fills calls)) (addTensor t) s fun id _ => id = ⟨s.graph.tensors.length⟩ :=
  ((addTensor_ends t).mono fun _ _ _ h => h.2.1).along fun _ h => .of_grows (Graph.Registers.grows h)

theorem insertNode_fills {kind : NodeKind} {lowered : Bool}
    (hcontract : ∀ op, kind = .operator op → op.check s.graph = .ok ()) :
    Ends (Along (Graph.Fills calls)) (insertNode kind lowered) s fun _ _ => True := by
  refine ((insertNode_ends hcontract fun g e _ htarget => .inl ?_).mono fun _ _ _ _ => trivial).along
    fun _ h => .of_grows h
  exact Nat.le_of_eq (congrArg NodeId.index htarget.symm)

theorem addInput_fills {t : Tensor} (hmem : .addInput t ∈ calls) :
    Ends (Along (Graph.Fills calls)) (addInput t) s fun _ _ => True := by
  unfold addInput
  refine (addTensor_fills t).bind_from fun id s₁ hs₁ hid => ?_
  have hinsert : Ends (Along (Graph.Fills calls)) (insertNode (.input id) false) s₁
      fun _ _ => True := by
    refine insertNode_fills ?_
    intro op hop
    cases hop
  refine Ends.bind_from (hinsert.along fun s₂ hs₂ => IsTrans.trans _ _ _ hs₁ hs₂) fun _ s₂ hs₂ _ =>
    ⟨?_, trivial⟩
  exact Graph.Fills.listInput hs₂ ⟨_, hmem, rfl⟩ (Nat.le_of_eq (congrArg TensorId.index hid.symm))

theorem markOutput_fills {t : TensorId} (hmem : .markOutput t ∈ calls) :
    Ends (Along (Graph.Fills calls)) (markOutput t) s fun _ _ => True := by
  unfold markOutput
  refine Ends.bind_from (insertNode_fills ?_) fun _ s₁ hs₁ _ =>
    ⟨Graph.Fills.listOutput hs₁ ⟨_, hmem, rfl⟩ t, trivial⟩
  intro op hop
  cases hop

theorem addOperator_fills (op : Operator) (lowered : Bool) :
    Ends (Along (Graph.Fills calls)) (addOperator op lowered) s fun _ _ => True := by
  refine ((addOperator_ends fun g e _ htarget => .inl ?_).mono fun _ _ _ _ => trivial).along
    fun _ h => .of_grows h
  exact Nat.le_of_eq (congrArg NodeId.index htarget.symm)

theorem connect_fills {source target : NodeId} {t : TensorId}
    (hmem : .connect source target t ∈ calls) :
    Ends (Along (Graph.Fills calls)) (connect source target t) s fun _ _ => True :=
  connect_ends fun hsource htarget _ => .of_grows (.single (.edge hsource htarget (.inr hmem)))

end Edit

theorem Call.edit_fills {call : Call} {calls : List Call} (hmem : call ∈ calls)
    (hcall : call.isInsertion) (captured : List Detachment) (s : Session) :
    Settles (Graph.Fills calls) (call.edit captured) s fun _ _ => True := by
  have hreturn {α : Type} {m : Edit α}
      (hm : Ends (Edit.Along (Graph.Fills calls)) m s fun _ _ => True) :
      Settles (Graph.Fills calls) (do
        let _ ← m
        return none : Edit (Option Detachment)) s fun _ _ => True :=
    (Settles.of_ends (P := fun _ _ => True) hm fun _ _ h => h).bind fun _ _ _ _ => Settles.pure trivial
  cases call with
  | addTensor t => exact hreturn ((Edit.addTensor_fills t).mono fun _ _ _ _ => trivial)
  | addInput t => exact hreturn (Edit.addInput_fills hmem)
  | markOutput t => exact hreturn (Edit.markOutput_fills hmem)
  | addOperator op lowered => exact hreturn (Edit.addOperator_fills op lowered)
  | addComposite op =>
    refine hreturn (Edit.insertNode_fills ?_)
    intro op hop
    cases hop
  | connect source target t => exact hreturn (Edit.connect_fills hmem)
  | detach id => cases hcall
  | restore i => cases hcall
  | lowerNode id options => cases hcall
  | lowerGraph options => cases hcall

/-! ## What comes back and what stays -/

namespace Graph

/-- A graph into which a node was put back, with the graph `before` the node was detached and the
graph `filled` by insertions since. -/
structure Reinstated (before filled g : Graph) : Prop where
  tensors : g.tensors = before.tensors
  names : ∀ name, g.tensorNamed? name = before.tensorNamed? name
  nodes : g.nodes = before.nodes
  producers : ∀ t, g.producer? t = before.producer? t
  nodup : g.edges.Nodup
  edges : ∀ e, e ∈ g.edges ↔ e ∈ before.edges ∨ e ∈ filled.edges ∧
    before.isLive e.source ∧ before.isLive e.target
  inputs : g.inputs = filled.inputs
  outputs : g.outputs = filled.outputs

variable {before filled g : Graph} {id : NodeId} {node : Node} {calls : List Call}

theorem Fills.reinstated (h : (before.eraseNode id).Fills calls filled) (hwf : before.WellFormed)
    (hnode : before.node? id = some node) :
    before.Reinstated filled (before.rolledBack id node filled) := by
  -- the lists of model inputs and outputs are put aside
  have hlists := relisted_rolledBack before id node (filled.relisted before.inputs before.outputs)
    filled.inputs filled.outputs
  change _ = before.rolledBack id node filled at hlists
  rw [← hlists]
  exact
    { tensors := tensors_rolledBack h.grows
      names := tensorNamed?_rolledBack hwf h.grows
      nodes := Table.ext_get? fun n => node?_rolledBack hwf hnode h.grows ⟨n⟩
      producers := producer?_rolledBack hwf hnode h.grows
      nodup := (hwf.rolledBack hnode h.grows).nodup
      edges := fun e => mem_edges_rolledBack_iff hwf h.grows
      inputs := rfl
      outputs := rfl }

/-- The graph holds what it held if and only if nothing was listed, and no edge was added between
nodes that were there. -/
theorem Reinstated.sameContents_iff (h : before.Reinstated filled g) (hwf : before.WellFormed) :
    before.SameContents g ↔ filled.inputs = before.inputs ∧ filled.outputs = before.outputs ∧
      ∀ e ∈ filled.edges, before.isLive e.source → before.isLive e.target → e ∈ before.edges := by
  constructor
  · intro hsame
    refine ⟨h.inputs.symm.trans hsame.inputs, h.outputs.symm.trans hsame.outputs,
      fun e he hsource htarget => ?_⟩
    exact hsame.edges.mem_iff.mp ((h.edges e).mpr (.inr ⟨he, hsource, htarget⟩))
  · rintro ⟨hinputs, houtputs, hedges⟩
    refine ⟨h.tensors, h.names, h.nodes, ?_, h.producers, h.inputs.trans hinputs,
      h.outputs.trans houtputs⟩
    refine (List.perm_ext_iff_of_nodup h.nodup hwf.nodup).mpr fun e => ?_
    rw [h.edges]
    exact or_iff_left_of_imp fun ⟨he, hsource, htarget⟩ => hedges e he hsource htarget

theorem Fills.sameContents (h : (before.eraseNode id).Fills calls filled)
    (hwf : before.WellFormed) (hnode : before.node? id = some node)
    (hunlisted : ∀ call ∈ calls, ¬ call.isListing)
    (hconnected : ∀ source target t, .connect source target t ∈ calls →
      before.isLive source → before.isLive target → ⟨source, target, t⟩ ∈ before.edges) :
    before.SameContents (before.rolledBack id node filled) := by
  obtain ⟨hinputs, houtputs⟩ := h.unlisted hunlisted
  refine ((h.reinstated hwf hnode).sameContents_iff hwf).mpr
    ⟨hinputs, houtputs, fun e he hsource htarget => ?_⟩
  rcases h.grows.mem_edges he with hold | hnew | hconnect
  · exact (mem_edges_eraseNode.mp hold).1
  · exact absurd (hwf.lt_of_live htarget) (Nat.not_lt.mpr hnew)
  · exact hconnected _ _ _ hconnect hsource htarget

end Graph

namespace Edit

/-- A node is put back after insertions. That never fails. It brings back the tensors, their names,
the nodes and the producers, and it loses no edge. What is listed as a model input or output stays
listed, the model inputs without their tensors, and edges that were put in by hand between nodes
that were there stay. So the graph holds what it held if and only if there is nothing of that kind. -/
theorem reattach_exact {before calls : List Call} {w w' : World} {id : NodeId} {kind : NodeKind}
    {d : Detachment} {s : Session} (hbefore : World.after before = some w)
    (hdetach : detach id w.session = .ok (kind, d) s)
    (hinsertions : ∀ call ∈ calls, call.isInsertion)
    (hcalls : calls.foldlM Call.perform ⟨s, w.captured ++ [d]⟩ = some w') :
    ∃ s', reattach kind d w'.session = .ok () s' ∧ w.graph.Reinstated w'.graph s'.graph ∧
      (∃ inputs, w'.graph.inputs = w.graph.inputs ++ inputs ∧ ∀ t ∈ inputs, s'.graph.tensor? t = none) ∧
      w.graph.outputs <+: w'.graph.outputs ∧
      (w.graph.SameContents s'.graph ↔
        w'.graph.inputs = w.graph.inputs ∧ w'.graph.outputs = w.graph.outputs ∧
        ∀ e ∈ w'.graph.edges, w.graph.isLive e.source → w.graph.isLive e.target → e ∈ w.graph.edges) ∧
      ((∀ call ∈ calls, ¬ call.isListing) →
        (∀ source target t, .connect source target t ∈ calls →
          w.graph.isLive source → w.graph.isLive target →
          ⟨source, target, t⟩ ∈ w.graph.edges) → w.graph.SameContents s'.graph) := by
  have hwf := (World.after_sound hbefore).wellFormed
  obtain ⟨node, hnode, rfl, rfl, hs⟩ := detach_eq_ok hdetach
  have hfills : s.graph.Fills calls w'.graph :=
    World.leads_of_settles (fun call hcall => Call.edit_fills hcall (hinsertions call hcall)) hcalls
  rw [hs] at hfills
  have hreinstated := hfills.reinstated hwf hnode
  obtain ⟨events, hrun⟩ :=
    reattach_run (s := w'.session) node.kind (d := w.graph.detachment id node) hfills.grows.length_le
  refine ⟨_, hrun, hreinstated, ?_, hfills.outputs, hreinstated.sameContents_iff hwf,
    hfills.sameContents hwf hnode⟩
  obtain ⟨inputs, hinputs, hnew⟩ := hfills.inputs
  refine ⟨inputs, hinputs, fun t ht => ?_⟩
  show (w.graph.rolledBack id node w'.graph).tensors[t.index]? = none
  rw [hreinstated.tensors]
  exact List.getElem?_eq_none (hnew t ht)

/-- A convolution with a reader is detached. Another node takes its output over and gets the reader
by hand; then the convolution is put back. -/
theorem reattach_exact_product :
    ∃ w kind d s w' s', World.after (convolutionCalls .f32 ++ [.markOutput ⟨2⟩]) = some w ∧
      detach ⟨2⟩ w.session = .ok (kind, d) s ∧
      [.addTensor (.computed "z" ⟨.f32, ⟨[1]⟩⟩ none),
        .addOperator ⟨.mul .none, [⟨0⟩, ⟨1⟩], [⟨2⟩]⟩ true,
        Call.connect ⟨4⟩ ⟨3⟩ ⟨2⟩].foldlM Call.perform ⟨s, w.captured ++ [d]⟩ = some w' ∧
      w'.graph.producer? ⟨2⟩ = some ⟨4⟩ ∧ ⟨⟨4⟩, ⟨3⟩, ⟨2⟩⟩ ∈ w'.graph.edges ∧
      reattach kind d w'.session = .ok () s' ∧ w.graph.SameContents s'.graph := by
  have hrun : ((World.after (convolutionCalls .f32 ++ [.markOutput ⟨2⟩])).bind fun w =>
      ((detach ⟨2⟩).success? w.session).bind fun r =>
      ([.addTensor (.computed "z" ⟨.f32, ⟨[1]⟩⟩ none),
        .addOperator ⟨.mul .none, [⟨0⟩, ⟨1⟩], [⟨2⟩]⟩ true,
        Call.connect ⟨4⟩ ⟨3⟩ ⟨2⟩].foldlM Call.perform ⟨r.2, w.captured ++ [r.1.2]⟩).map fun w' =>
        (w'.graph.producer? ⟨2⟩, decide (⟨⟨4⟩, ⟨3⟩, ⟨2⟩⟩ ∈ w'.graph.edges), w.graph.isLive ⟨4⟩)) =
      some (some ⟨4⟩, true, false) := by
    decide +kernel
  obtain ⟨w, hw, hdetached⟩ := Option.bind_eq_some_iff.mp hrun
  obtain ⟨⟨⟨kind, d⟩, s⟩, hdetach, hperformed⟩ := Option.bind_eq_some_iff.mp hdetached
  obtain ⟨w', hw', hfacts⟩ := Option.map_eq_some_iff.mp hperformed
  simp only [Prod.mk.injEq, decide_eq_true_eq] at hfacts
  obtain ⟨hproducer, hedge, hnew⟩ := hfacts
  have hok := success?_eq_some hdetach
  obtain ⟨s', hreattach, _, _, _, _, hsame⟩ := reattach_exact hw hok (by decide) hw'
  refine ⟨w, kind, d, s, w', s', hw, hok, hw', hproducer, hedge, hreattach, hsame (by decide) ?_⟩
  intro source target t hmem hsource _
  obtain ⟨rfl, _⟩ : source = ⟨4⟩ ∧ _ := by simpa using hmem
  rw [hnew] at hsource
  cases hsource

/-- A model input and a model output are added while a node is out, and the new tensor is put on an
edge between two other nodes. When the node is back, all three stay, and the tensor is gone. -/
theorem reattach_leaves_unregistered :
    ∃ w kind d s w' s', World.after
        [.addInput (.computed "x" ⟨.f32, ⟨[1]⟩⟩ none), .addInput (.computed "y" ⟨.f32, ⟨[1]⟩⟩ none),
        .markOutput ⟨0⟩] = some w ∧
      detach ⟨1⟩ w.session = .ok (kind, d) s ∧
      [.addInput (.computed "z" ⟨.f32, ⟨[1]⟩⟩ none), .markOutput ⟨2⟩,
        Call.connect ⟨0⟩ ⟨2⟩ ⟨2⟩].foldlM Call.perform ⟨s, w.captured ++ [d]⟩ = some w' ∧
      reattach kind d w'.session = .ok () s' ∧ s'.graph.tensor? ⟨2⟩ = none ∧
      (w.graph.inputs, w.graph.outputs, w.graph.edges) =
        ([⟨0⟩, ⟨1⟩], [⟨0⟩], [⟨⟨0⟩, ⟨2⟩, ⟨0⟩⟩]) ∧
      (s'.graph.inputs, s'.graph.outputs, s'.graph.edges) =
        ([⟨0⟩, ⟨1⟩, ⟨2⟩], [⟨0⟩, ⟨2⟩],
          [⟨⟨0⟩, ⟨2⟩, ⟨0⟩⟩, ⟨⟨0⟩, ⟨2⟩, ⟨2⟩⟩]) ∧
      ¬ w.graph.SameContents s'.graph := by
  refine ⟨_, _, _, _, _, _, rfl, rfl, rfl, rfl, rfl, rfl, rfl, fun hsame => ?_⟩
  exact absurd hsame.inputs (by decide)

end Edit

end GraphLowering
