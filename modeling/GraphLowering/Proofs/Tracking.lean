import GraphLowering.Proofs.Calls

/-!
# Edges carry registered tensors

An edge gets into a graph in two ways. It is put in by hand, and then its tensor is looked up first.
Or it starts at the producer of its tensor, and what is produced is registered. Tensors are never
removed but by a lowering that is given up, which drops those that it brought itself; the edges that
are left then carry older ones (`Graph.Tracked.carried_of_old`). So after any calls, edges that were
put in by hand included, every edge carries a registered tensor (`World.after_tracked`).
-/

namespace GraphLowering

namespace Graph

/-- The tables of the graph fit together, and every edge carries a registered tensor. -/
structure Tracked (g : Graph) : Prop where
  wellFormed : g.WellFormed
  carried : ∀ e ∈ g.edges, e.tensor.index < g.tensors.length

variable {g g' : Graph} {allowed : Graph → Edge → Prop} {id : NodeId} {node : Node}

theorem Tracked.addEdge (h : g.Tracked) {e : Edge} (hsource : g.isLive e.source)
    (htarget : g.isLive e.target) (htensor : e.tensor.index < g.tensors.length) :
    (g.addEdge e).Tracked := by
  refine ⟨h.wellFormed.addEdge hsource htarget, fun e' he' => ?_⟩
  rw [addEdge_tensors]
  rcases mem_edges_addEdge.mp he' with rfl | he'
  · exact htensor
  · exact h.carried e' he'

/-- Edges that start at the producers of their tensors carry registered ones. -/
theorem Grows.tracked (h : Grows Sourced g g') (hg : g.Tracked) : g'.Tracked := by
  induction h with
  | refl => exact hg
  | @tail g₁ g₂ _ hstep ih =>
    have hwf₂ : g₂.WellFormed := hstep.wellFormed ih.wellFormed
    cases hstep with
    | tensor _ =>
      refine ⟨hwf₂, fun e he => ?_⟩
      rw [length_pushTensor]
      exact Nat.lt_succ_of_lt (ih.carried e he)
    | node _ _ => exact ⟨hwf₂, ih.carried⟩
    | constant _ _ _ => exact ⟨hwf₂, ih.carried⟩
    | @edge e hsource htarget hsourced =>
      exact ih.addEdge hsource htarget
        (ih.wellFormed.recorded e.tensor e.source (producer?_eq_some.mp hsourced).1).2

theorem Tracked.eraseNode (h : g.Tracked) (id : NodeId) : (g.eraseNode id).Tracked :=
  ⟨h.wellFormed.eraseNode id, fun e he => h.carried e (mem_edges_eraseNode.mp he).1⟩

/-- While a node is replaced, a tensor that was not there before goes from its producer to its
readers only: an edge that takes the place of one that the node had carries an older one. -/
theorem Tracked.dataflow_of_new (h : g.Tracked)
    (hgrows : Grows (g.detachment id node).Permits (g.eraseNode id) g') {e : Edge}
    (he : e ∈ g'.edges) (hnew : g.tensors.length ≤ e.tensor.index) : g'.Dataflow e := by
  refine hgrows.dataflow_of_kind (fun e => g.tensors.length ≤ e.tensor.index)
    (h.wellFormed.eraseNode id) ?_ ?_ e he hnew
  · intro g₁ e hpermitted hnew
    obtain ⟨hproducer, ⟨_, hreads⟩ | hsuccessor⟩ := hpermitted
    · exact ⟨hproducer, hreads⟩
    · have hold := h.carried ⟨id, e.target, e.tensor⟩ (mem_successors_detachment.mp hsuccessor).1
      exact absurd hold (Nat.not_lt.mpr hnew)
  · intro e he hnew
    exact absurd ((h.eraseNode id).carried e he) (Nat.not_lt.mpr hnew)

theorem Tracked.carried_of_old (h : g.Tracked)
    (hgrows : Grows (g.detachment id node).Permits (g.eraseNode id) g') {e : Edge}
    (he : e ∈ g'.edges) (htarget : e.target.index < g.nextNode) :
    e.tensor.index < g.tensors.length := by
  rcases Nat.lt_or_ge e.tensor.index g.tensors.length with hold | hnew
  · exact hold
  · obtain ⟨_, reader, hreader, hread⟩ := h.dataflow_of_new hgrows he hnew
    rw [hgrows.node?_of_lt htarget] at hreader
    exact (h.wellFormed.eraseNode id).tensor_lt hreader (List.mem_append_left _ hread)

theorem Refuses.tracked (h : g.Refuses id g') (hg : g.Tracked) : g'.Tracked := by
  refine ⟨h.wellFormed hg.wellFormed, ?_⟩
  rcases h with rfl | ⟨node, tried, _, hgrows, rfl⟩
  · exact hg.carried
  · intro e he
    show _ < (g.rolledBack id node tried).tensors.length
    rw [tensors_rolledBack hgrows]
    rcases mem_edges_rolledBack.mp he with ⟨he, _, htarget⟩ | ⟨he, _⟩
    · exact hg.carried_of_old hgrows he htarget
    · exact hg.carried e he

instance : Allows fun g g' => g.Tracked → g'.Tracked where
  refl _ h := h
  trans _ _ _ h h' hg := h' (h hg)
  adding h := h.tracked
  connecting hsource htarget htensor h := by
    obtain ⟨t, ht⟩ := Option.isSome_iff_exists.mp htensor
    exact h.addEdge hsource htarget (tensor?_lt ht)
  detaching _ id h := h.eraseNode id
  listingInput _ h := ⟨h.wellFormed.setInputs _, h.carried⟩
  listingOutput _ h := ⟨h.wellFormed.setOutputs _, h.carried⟩
  refusing h := h.tracked

end Graph

theorem World.after_tracked {calls : List Call} {w : World} (h : World.after calls = some w) :
    w.graph.Tracked :=
  World.after_induction Graph.Tracked ⟨.empty, fun _ he => nomatch he⟩ h

end GraphLowering
