import GraphLowering.Proofs.Outlines
import GraphLowering.Proofs.Rollback

/-!
# Replacing a composite

The two ways in which replacing a composite can end. With a result, the composite is taken out and
its chain is in its place (`Graph.Lowers`). With a rejection, the graph is as it was, or things were
added to the graph without the composite and then the composite was put back (`Graph.Refuses`).
-/

namespace GraphLowering

namespace Graph

/-- A composite of the graph has become a chain of nodes. -/
def Lowers (g : Graph) (id : NodeId) (ids : List NodeId) (g' : Graph) : Prop :=
  ∃ node op, g.node? id = some node ∧ node.kind = .composite op ∧
    Grows (g.detachment id node).Permits (g.eraseNode id) g' ∧
    op.Becomes (g.detachment id node) (g.eraseNode id) ids g'

theorem Lowers.tensors_extend {g g' : Graph} {id : NodeId} {ids : List NodeId}
    (h : g.Lowers id ids g') :
    g.tensors <+: g'.tensors := by
  obtain ⟨_, _, _, _, hgrows, _⟩ := h
  exact hgrows.tensors_extend

/-- A replacement was refused: nothing was done, or all of it was undone. -/
def Refuses (g : Graph) (id : NodeId) (g' : Graph) : Prop :=
  g' = g ∨ ∃ node tried, g.node? id = some node ∧
    Grows (g.detachment id node).Permits (g.eraseNode id) tried ∧
    g' = (tried.cutBack (g.detachment id node)).putBack node.kind (g.detachment id node)

theorem Refuses.wellFormed {g g' : Graph} {id : NodeId} (h : g.Refuses id g') (hwf : g.WellFormed) :
    g'.WellFormed := by
  rcases h with rfl | ⟨node, tried, hnode, hgrows, rfl⟩
  · exact hwf
  · exact hwf.rolledBack hnode hgrows

theorem SameContents.refl (g : Graph) : g.SameContents g :=
  ⟨rfl, fun _ => rfl, rfl, .refl _, fun _ => rfl, rfl, rfl⟩

theorem Refuses.sameContents {g g' : Graph} {id : NodeId} (h : g.Refuses id g') (hwf : g.WellFormed)
    (hflow : ∀ e ∈ g.edges, g.Dataflow e) : g.SameContents g' := by
  rcases h with rfl | ⟨node, tried, hnode, hgrows, rfl⟩
  · exact .refl g'
  · exact .rolledBack hwf hflow hnode hgrows

end Graph

namespace Edit

variable {s s' : Session} {id : NodeId} {options : Options}

/-! ## Taking a node out and putting it back -/

theorem detach_run {node : Node} (hnode : s.graph.node? id = some node) :
    detach id s = .ok (node.kind, s.graph.detachment id node) ⟨s.graph.eraseNode id, s.events⟩ := by
  unfold detach
  rw [run_bind_ok (show Edit.graph s = .ok s.graph s from rfl), hnode]
  rfl

theorem detach_eq_ok {kind : NodeKind} {d : Detachment} (h : detach id s = .ok (kind, d) s') :
    ∃ node, s.graph.node? id = some node ∧ kind = node.kind ∧
      d = s.graph.detachment id node ∧ s'.graph = s.graph.eraseNode id := by
  cases hnode : s.graph.node? id with
  | none =>
    unfold detach at h
    rw [run_bind_ok (show Edit.graph s = .ok s.graph s from rfl), hnode] at h
    cases h
  | some node =>
    rw [detach_run hnode] at h
    cases h
    exact ⟨node, rfl, rfl, rfl, rfl⟩

theorem reattach_run (kind : NodeKind) {d : Detachment}
    (hcount : d.tensorCount ≤ s.graph.tensors.length) :
    ∃ events, reattach kind d s = .ok () ⟨(s.graph.cutBack d).putBack kind d, events⟩ := by
  refine ⟨s.events ++ [.reattached d.name (s.graph.newNodeCount d)], ?_⟩
  unfold reattach
  rw [run_bind_ok (show Edit.graph s = .ok s.graph s from rfl), if_neg (Nat.not_lt.mpr hcount)]
  rfl

/-! ## The three ends of a lowering -/

section Lower

variable {s₁ : Session} {op : Composite} {d : Detachment}

theorem lower_of_ok {result : Lowered} (h : op.lower d options s = .ok result s₁) :
    ∃ events, lower op d options s = .ok result ⟨s₁.graph, events⟩ := by
  have hattempt : attempt (op.lower d options) s = .ok (.ok result) s₁ := by
    unfold attempt
    rw [h]
  refine ⟨s₁.events ++ [.lowered op.name d.name result.nodes.length], ?_⟩
  unfold lower
  rw [run_bind_ok hattempt]
  rfl

theorem lower_of_fault {f : Fault} (h : op.lower d options s = .error (.fault f) s₁) :
    lower op d options s = .error (.fault f) s₁ := by
  have hattempt : attempt (op.lower d options) s = .error (.fault f) s₁ := by
    unfold attempt
    rw [h]
  unfold lower
  rw [run_bind_error hattempt]

/-- What a rejected lowering added is dropped and the node is put back; then the rejection goes on. -/
theorem lower_of_rejected {e : LowerError} (h : op.lower d options s = .error (.rejected e) s₁)
    (hcount : d.tensorCount ≤ s₁.graph.tensors.length) :
    ∃ events, lower op d options s =
      (reject e : Edit Lowered) ⟨(s₁.graph.cutBack d).putBack (.composite op) d, events⟩ := by
  have hattempt : attempt (op.lower d options) s = .ok (.error e) s₁ := by
    unfold attempt
    rw [h]
  obtain ⟨events, hrun⟩ :=
    reattach_run (s := ⟨s₁.graph, s₁.events ++ [.notLowered op.name d.name e]⟩) (.composite op) hcount
  refine ⟨events, ?_⟩
  unfold lower
  rw [run_bind_ok hattempt]
  exact run_bind_ok hrun

end Lower

/-! ## Replacing a node of the graph -/

theorem lowerNode_composite {node : Node} {op : Composite} (hnode : s.graph.node? id = some node)
    (hkind : node.kind = .composite op) :
    lowerNode id options s = lower op (s.graph.detachment id node)
      options ⟨s.graph.eraseNode id, s.events⟩ := by
  unfold lowerNode
  rw [run_bind_ok (show Edit.graph s = .ok s.graph s from rfl), hnode]
  simp only [hkind]
  rw [run_bind_ok (detach_run hnode)]

theorem lowerNode_other (options : Options)
    (h : ∀ node op, s.graph.node? id = some node → node.kind ≠ .composite op) :
    ∃ e, lowerNode id options s = (reject e : Edit Lowered) s := by
  unfold lowerNode
  rw [run_bind_ok (show Edit.graph s = .ok s.graph s from rfl)]
  cases hnode : s.graph.node? id with
  | none => exact ⟨_, rfl⟩
  | some node =>
    cases hkind : node.kind with
    | composite op => exact absurd hkind (h node op hnode)
    | input _ | constant _ | output _ | operator _ =>
      refine ⟨.precondition node.kind.label (.notComposite id node.name), ?_⟩
      simp only [hkind]

theorem reject_state {α : Type} {error : LowerError} {stop : Stop}
    (h : (reject error : Edit α) s = .error stop s') :
    s' = s := by
  have hends : Ends Eq (reject error : Edit α) s fun _ _ => True := reject_ends error
  exact (hends.of_error h).symm

theorem reject_ne_ok {α : Type} {error : LowerError} {a : α} :
    (reject error : Edit α) s ≠ .ok a s' := by
  intro h
  have hends : Ends Eq (reject error : Edit α) s fun _ _ => False := reject_ends error
  exact (hends.of_ok h).2

theorem lowerNode_run (id : NodeId) (options : Options) (s : Session) :
    (∀ result s', lowerNode id options s = .ok result s' → s.graph.Lowers id result.nodes s'.graph) ∧
      ∀ e s', lowerNode id options s = .error (.rejected e) s' → s.graph.Refuses id s'.graph := by
  by_cases hother : ∀ node op, s.graph.node? id = some node → node.kind ≠ .composite op
  · obtain ⟨e, hrun⟩ := lowerNode_other options hother
    rw [hrun]
    exact ⟨fun _ _ h => absurd h reject_ne_ok,
      fun _ _ h => .inl (congrArg Session.graph (reject_state h))⟩
  · push Not at hother
    obtain ⟨node, op, hnode, hkind⟩ := hother
    rw [lowerNode_composite hnode hkind]
    have hends :=
      op.lower_ends (s := ⟨s.graph.eraseNode id, s.events⟩) (d := s.graph.detachment id node) options
      (Nat.le_refl _)
    cases hrun : op.lower (s.graph.detachment id node) options ⟨s.graph.eraseNode id, s.events⟩ with
    | ok result s₁ =>
      obtain ⟨events, hlower⟩ := lower_of_ok hrun
      obtain ⟨hgrows, hbecomes⟩ := hends.of_ok hrun
      rw [hlower]
      refine ⟨?_, fun _ _ h => nomatch h⟩
      rintro _ _ ⟨⟩
      exact ⟨node, op, hnode, hkind, hgrows, hbecomes⟩
    | error stop s₁ =>
      have hgrows : Graph.Grows _ (s.graph.eraseNode id) s₁.graph := hends.of_error hrun
      cases stop with
      | rejected e =>
        obtain ⟨events, hlower⟩ := lower_of_rejected hrun hgrows.length_le
        rw [hlower]
        refine ⟨fun _ _ h => absurd h reject_ne_ok,
          fun _ s' h => .inr ⟨node, s₁.graph, hnode, hgrows, ?_⟩⟩
        rw [reject_state h, hkind]
      | fault f =>
        rw [lower_of_fault hrun]
        exact ⟨fun _ _ h => (nomatch h), fun _ _ h => (nomatch h)⟩

end Edit

end GraphLowering
