import GraphLowering.Proofs.Success
import GraphLowering.Proofs.Tracking

/-!
# The check of a chain finds nothing

When a chain is in its place, each of its operators but the last is looked at: a node has to produce
its result and feed another node that is no constant. Edges that were put in by hand do not matter
for that. The results are tensors that the draft has registered, and an edge that carries a new
tensor goes from its producer to a reader (`Graph.Tracked.dataflow_of_new`); and the node that
produces such a result feeds others with nothing else. So the check passes
(`Graph.Tracked.checkChain_ok`), and lowering does the same with it and without it.
-/

namespace GraphLowering

theorem Operator.single_of_check {g : Graph} {op : Operator} (h : op.check g = .ok ()) :
    op.outputs.length = 1 := by
  by_contra hother
  have hcounts : op.checkCounts ≠ .ok () := by
    unfold checkCounts
    rw [if_pos hother]
    split <;> exact fun h => nomatch h
  unfold check at h
  cases hrun : op.checkCounts with
  | ok _ => exact hcounts hrun
  | error e =>
    rw [hrun] at h
    cases h

namespace Graph

variable {g g' drafted : Graph} {id : NodeId} {node : Node} {op : Composite}
  {o : Outline} {ids : List NodeId}

theorem WellFormed.output_unique (hwf : g.WellFormed) (hnode : g.node? id = some node)
    {t u : TensorId} (ht : t ∈ node.kind.outputs) (hu : u ∈ node.kind.outputs) : t = u := by
  have hlength : node.kind.outputs.length ≤ 1 := by
    cases hkind : node.kind with
    | operator op => exact Nat.le_of_eq (Operator.single_of_check (hwf.contract id node op hnode hkind))
    | output _ => exact Nat.zero_le 1
    | input _ | constant _ | composite _ => exact Nat.le_refl 1
  match houtputs : node.kind.outputs, hlength with
  | [], _ =>
    rw [houtputs] at ht
    cases ht
  | [x], _ =>
    rw [houtputs] at ht hu
    rw [List.mem_singleton.mp ht, List.mem_singleton.mp hu]

theorem Grows.sourced (h : Grows Sourced g g') (hwf : g.WellFormed) {e : Edge} (he : e ∈ g'.edges) :
    e ∈ g.edges ∨ g'.Sourced e := by
  induction h with
  | refl => exact .inl he
  | @tail g₁ g₂ hgrown hstep ih =>
    have hwf₁ : g₁.WellFormed := wellFormed hgrown hwf
    have hkeep : g₁.Sourced e → g₂.Sourced e := hstep.producer? hwf₁
    cases hstep with
    | tensor _ => exact (ih he).imp_right hkeep
    | node _ _ => exact (ih he).imp_right hkeep
    | constant _ _ _ => exact (ih he).imp_right hkeep
    | edge _ _ hsourced =>
      rcases mem_edges_addEdge.mp he with rfl | he
      · exact .inr (hkeep hsourced)
      · exact (ih he).imp_right hkeep

/-- While a node is replaced, what carries a new tensor goes to readers, and its producer feeds them
with nothing else. -/
theorem Tracked.served (h : g.Tracked)
    (hgrows : Grows (g.detachment id node).Permits (g.eraseNode id) g') {n m : NodeId}
    {t : TensorId} (he : ⟨n, m, t⟩ ∈ g'.edges) (hnew : g.tensors.length ≤ t.index) : g'.Served t := by
  have hwf := (h.eraseNode id).wellFormed
  have hwf' := hgrows.wellFormed hwf
  obtain ⟨hproducer, _⟩ := h.dataflow_of_new hgrows he hnew
  refine ⟨n, hproducer, ⟨m, t, he⟩, fun m' u hu => ?_⟩
  obtain ⟨maker, hmaker, hmade⟩ := hwf'.producer?_iff.mp hproducer
  have hsourced : g'.Sourced ⟨n, m', u⟩ := by
    refine ((hgrows.weaken fun _ _ hpermitted => hpermitted.1).sourced hwf hu).resolve_left
      fun hold => ?_
    -- a node that was there before produces tensors that were there before
    have hlive := (hwf.ends _ hold).1
    rw [hgrows.node?_of_lt (hwf.lt_of_live hlive)] at hmaker
    exact absurd (hwf.tensor_lt hmaker (List.mem_append_right _ hmade)) (Nat.not_lt.mpr hnew)
  obtain ⟨maker', hmaker', hmade'⟩ := hwf'.producer?_iff.mp hsourced
  cases hmaker.symm.trans hmaker'
  obtain rfl := hwf'.output_unique hmaker hmade hmade'
  exact (h.dataflow_of_new hgrows hu hnew).2

theorem Coherent.output_not_mem {chain : List Operator} {output : TensorId} (h : g.Coherent chain)
    (hthreaded : Chain.Threaded output chain) : ∀ op ∈ chain.dropLast, output ∉ op.outputs := by
  have hapart := h.apart
  clear h
  induction hthreaded with
  | last _ => exact fun _ hop => nomatch hop
  | @cons op rest _ hrest ih =>
    obtain ⟨hhead, htail⟩ := List.pairwise_cons.mp hapart
    obtain ⟨maker, hmaker, hmade⟩ := hrest.made
    cases rest with
    | nil => cases hrest
    | cons next later =>
      rw [List.dropLast_cons_cons]
      exact List.forall_mem_cons.mpr ⟨(hhead maker hmaker output hmade).1, ih htail⟩

/-- A chain that is in the place of a composite passes the check. -/
theorem Tracked.checkChain_ok (h : g.Tracked) (houtlines : op.Outlines (g.eraseNode id) o drafted)
    (hgrows : Grows (g.detachment id node).Permits (g.eraseNode id) g')
    (hreplaces : drafted.Replaces (g.detachment id node) o.chain ids g') :
    g'.checkChain o.chain = .ok () := by
  obtain ⟨emitted, hemits, hlinked, _, _⟩ := hreplaces
  obtain ⟨hregisters, hdrafts⟩ := houtlines
  have hdrafts := hdrafts drafted (List.prefix_refl _)
  have hwf := (h.eraseNode id).wellFormed
  have hdrafted := hregisters.wellFormed hwf
  have hcoherent := ((emits_iff hdrafted).mp ⟨ids, emitted, hemits⟩).1
  refine Graph.checkChain_ok (hgrows.wellFormed hwf) fun o' ho' t ht => ?_
  obtain ⟨n, m, he⟩ := hemits.edges_of_threaded hdrafted hdrafts.threaded o' ho' t ht
  refine h.served hgrows (hlinked.grows.edges_subset he) ?_
  rcases hdrafts.supplied.made o' (List.dropLast_subset _ ho') t ht with rfl | ⟨_, ⟨hnew, _⟩, _⟩
  · exact absurd ht (hcoherent.output_not_mem hdrafts.threaded o' ho')
  · exact hnew

end Graph

/-! ## With the check and without it -/

def Outline.withVerified (o : Outline) (verified : Bool) : Outline :=
  { o with verified }

section Verification

variable {s : Session} {id : NodeId} {node : Node} {op : Composite} {o : Outline} {d : Detachment}

theorem Graph.Tracked.emit_checked {g : Graph} (h : g.Tracked)
    (houtlines : op.Outlines (g.eraseNode id) o s.graph) {ids : List NodeId} {s' : Session}
    (hemit : Edit.emit o.chain (g.detachment id node) s = .ok ids s') :
    s'.graph.checkChain o.chain = .ok () := by
  have hnew : (g.detachment id node).firstNew ≤ s.graph.nextNode := houtlines.1.nextNode_le
  obtain ⟨hgrows, hreplaces⟩ := (Edit.emit_ends o.chain hnew).of_ok hemit
  exact h.checkChain_ok houtlines (houtlines.1.grows.trans hgrows) hreplaces

/-- Putting a chain in the place of a composite does not depend on whether it is checked there. -/
theorem Graph.Tracked.place_eq {g : Graph} (h : g.Tracked)
    (houtlines : op.Outlines (g.eraseNode id) o s.graph) :
    o.place (g.detachment id node) s =
      (Edit.emit o.chain (g.detachment id node) >>= fun nodes => pure ⟨nodes, o.diagnostics⟩) s := by
  unfold Outline.place
  cases hemit : Edit.emit o.chain (g.detachment id node) s with
  | error stop s' => rw [run_bind_error hemit, run_bind_error hemit]
  | ok nodes s' =>
    rw [run_bind_ok hemit, run_bind_ok hemit]
    split
    · rw [run_bind_ok (Edit.verify_run (h.emit_checked houtlines hemit))]
    · rfl

theorem TransposedConvolution.outline_withVerified (n : TransposedConvolution) (options : Options)
    (verified : Bool) :
    n.outline { options with verifyTransposed := verified } = n.outline options >>=
      fun o => pure (o.withVerified verified) := by
  have hite {α β : Type} {c : Prop} [Decidable c] (m m' : Edit α) (k : α → Edit β) :
      (if c then m else m') >>= k = if c then m >>= k else m' >>= k := apply_ite (· >>= k) c m m'
  simp only [outline, hite, bind_assoc, pure_bind]
  rfl

/-- Replacing a composite does not depend on whether chains of transposed convolutions are checked. -/
theorem Graph.Tracked.lower_verification {g : Graph} (h : g.Tracked) (op : Composite)
    (options : Options) (verified : Bool) (events : List Event) :
    op.lower (g.detachment id node) { options with verifyTransposed := verified }
      ⟨g.eraseNode id, events⟩ =
      op.lower (g.detachment id node) options ⟨g.eraseNode id, events⟩ := by
  cases op with
  | batchNorm n => rfl
  | convolution n => rfl
  | transposedConvolution n =>
    rw [Composite.lower_eq, Composite.lower_eq]
    unfold Composite.outline
    simp only
    rw [n.outline_withVerified, bind_assoc]
    cases houtline : n.outline options ⟨g.eraseNode id, events⟩ with
    | error stop t => rw [run_bind_error houtline, run_bind_error houtline]
    | ok o t =>
      have houtlines : (Composite.transposedConvolution n).Outlines (g.eraseNode id) o t.graph :=
        Composite.outlines_of_ok
          (show (Composite.transposedConvolution n).outline options _ = _ from houtline)
      have houtlines' : (Composite.transposedConvolution n).Outlines
          (g.eraseNode id) (o.withVerified verified) t.graph := houtlines
      rw [run_bind_ok houtline, run_bind_ok houtline, pure_bind,
        h.place_eq houtlines, h.place_eq houtlines']
      rfl

namespace Edit

theorem lower_congr {op : Composite} {options options' : Options}
    (h : op.lower d options s = op.lower d options' s) :
    lower op d options s = lower op d options' s := by
  have hattempt : attempt (op.lower d options) s = attempt (op.lower d options') s := by
    unfold attempt
    rw [h]
  unfold lower
  cases hrun : attempt (op.lower d options') s with
  | ok a s' => rw [run_bind_ok hrun, run_bind_ok (hattempt.trans hrun)]
  | error stop s' => rw [run_bind_error hrun, run_bind_error (hattempt.trans hrun)]

theorem lowerNode_verification (h : s.graph.Tracked) (id : NodeId) (options : Options)
    (verified : Bool) :
    lowerNode id { options with verifyTransposed := verified } s = lowerNode id options s := by
  cases hnode : s.graph.node? id with
  | none =>
    unfold lowerNode
    rw [run_bind_ok (show Edit.graph s = .ok s.graph s from rfl),
      run_bind_ok (show Edit.graph s = .ok s.graph s from rfl), hnode]
  | some node =>
    cases hkind : node.kind with
    | composite op =>
      rw [lowerNode_composite hnode hkind, lowerNode_composite hnode hkind]
      exact lower_congr (h.lower_verification op options verified s.events)
    | input _ | constant _ | output _ | operator _ =>
      unfold lowerNode
      rw [run_bind_ok (show Edit.graph s = .ok s.graph s from rfl),
        run_bind_ok (show Edit.graph s = .ok s.graph s from rfl), hnode]
      simp only [hkind]

/-- Two loops whose steps agree where an invariant holds agree from there on. -/
theorem foldlM_congr {α β : Type} {I : Session → Prop} {step step' : β → α → Edit β} (xs : List α)
    (b : β) (hstep : ∀ b x s, I s → step' b x s = step b x s)
    (hkeep : ∀ b x s b' s', I s → step b x s = .ok b' s' → I s') :
    ∀ s, I s → xs.foldlM step' b s = xs.foldlM step b s := by
  induction xs generalizing b with
  | nil =>
    intro s _
    rw [List.foldlM_nil, List.foldlM_nil]
  | cons x rest ih =>
    intro s hs
    rw [List.foldlM_cons, List.foldlM_cons]
    cases hrun : step b x s with
    | error stop s' => rw [run_bind_error hrun, run_bind_error ((hstep b x s hs).trans hrun)]
    | ok b' s' =>
      rw [run_bind_ok hrun, run_bind_ok ((hstep b x s hs).trans hrun)]
      exact ih b' s' (hkeep b x s b' s' hs hrun)

theorem lowerGraph_verification (h : s.graph.Tracked) (options : Options) (verified : Bool) :
    lowerGraph { options with verifyTransposed := verified } s = lowerGraph options s := by
  have hkeep (report : Report) (id : NodeId) (s : Session) (report' : Report)
      (s' : Session) (hs : s.graph.Tracked)
      (hrun : (do return report.add (← lowerNode id options) : Edit Report) s = .ok report' s') :
      s'.graph.Tracked := by
    obtain ⟨result, s₁, hlower, hreturn⟩ := run_bind_eq_ok.mp hrun
    cases hreturn
    have hsettles : Settles (fun g g' => g.Tracked → g'.Tracked) (lowerNode id options) s
        fun _ _ => True :=
      lowerNode_settles id options
    rw [Settles, hlower] at hsettles
    exact hsettles.1 hs
  have hstep (report : Report) (id : NodeId) (s : Session) (hs : s.graph.Tracked) :
      (do return report.add (← lowerNode id { options with verifyTransposed := verified }) :
          Edit Report) s =
        (do return report.add (← lowerNode id options) : Edit Report) s := by
    have hnode := lowerNode_verification hs id options verified
    cases hrun : lowerNode id options s with
    | error stop s' => rw [run_bind_error hrun, run_bind_error (hnode.trans hrun)]
    | ok result s' => rw [run_bind_ok hrun, run_bind_ok (hnode.trans hrun)]
  unfold lowerGraph
  rw [run_bind_ok (show Edit.graph s = .ok s.graph s from rfl),
    run_bind_ok (show Edit.graph s = .ok s.graph s from rfl)]
  cases s.graph.composites with
  | error stop => rfl
  | ok ids => exact foldlM_congr ids _ hstep hkeep s h

end Edit

end Verification

end GraphLowering
