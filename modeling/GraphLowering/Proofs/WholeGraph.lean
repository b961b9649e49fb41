import GraphLowering.Proofs.Acyclicity
import GraphLowering.Proofs.Feeding

/-!
# Lowering all composites of a graph

Lowering a graph is lowering its composites one by one in topological order. `Graph.LowersEach` is
what that does to the graph when each of them succeeds: the composites are gone, all other nodes
stay, and the nodes that came in are no composites and have numbers that ascend from one chain to
the next. When one is refused, those before it stay lowered, and the graph is what they left.
-/

namespace GraphLowering

namespace Graph

variable {g g' : Graph} {id n : NodeId} {node : Node} {ids : List NodeId}

/-! ## One composite -/

theorem Emits.node? {chain : List Operator} (h : g.Emits chain ids g') (hwf : g.WellFormed)
    (hnode : g'.node? n = some node) :
    g.node? n = some node ∨ ¬ node.kind.isComposite := by
  rcases h.brought hwf hnode with hold | ⟨_, ⟨op, _, hkind⟩ | ⟨t, hkind, _⟩⟩
  · exact .inl hold
  · exact .inr (by simp [hkind, NodeKind.isComposite])
  · exact .inr (by simp [hkind, NodeKind.isComposite])

theorem Emits.node?_of_mem {chain : List Operator} (h : g.Emits chain ids g') (hn : n ∈ ids) :
    ∃ name op, g'.node? n = some ⟨n, name, .operator op, true⟩ := by
  have hnodes := h.nodes
  clear h
  induction hnodes with
  | nil => cases hn
  | @cons id op _ _ hhead _ ih =>
    rcases List.mem_cons.mp hn with rfl | hn
    · obtain ⟨name, hnode, _⟩ := hhead
      exact ⟨name, op, hnode⟩
    · exact ih hn

namespace Lowers

theorem wellFormed (h : g.Lowers id ids g') (hwf : g.WellFormed) : g'.WellFormed :=
  (h.evolves hwf).1

theorem node?_of_ne (h : g.Lowers id ids g') (hwf : g.WellFormed) (hnode : g.node? n = some node)
    (hne : n ≠ id) :
    g'.node? n = some node := by
  obtain ⟨_, _, _, _, hgrows, _⟩ := h
  rw [hgrows.node?_of_lt (hwf.stored n node hnode).2, node?_eraseNode, if_neg hne, hnode]

theorem node?_composite (h : g.Lowers id ids g') (hwf : g.WellFormed) (hnode : g'.node? n = some node)
    (hkind : node.kind.isComposite) : g.node? n = some node ∧ n ≠ id := by
  obtain ⟨_, _, _, _, _, draft, chain, hregisters, _, emitted, hemits, hlinked, _⟩ := h
  have hdraft := hregisters.wellFormed (hwf.eraseNode id)
  rw [hlinked.node?] at hnode
  rcases hemits.node? hdraft hnode with hold | hprimitive
  · rw [hregisters.node?, node?_eraseNode] at hold
    split at hold
    · cases hold
    · next hne => exact ⟨hold, hne⟩
  · exact absurd hkind hprimitive

theorem emitted (h : g.Lowers id ids g') (hwf : g.WellFormed) :
    ids.Pairwise (fun a b => a.index < b.index) ∧
      ∀ n ∈ ids, g.nextNode ≤ n.index ∧ n.index < g'.nextNode ∧
        ∃ name op, g'.node? n = some ⟨n, name, .operator op, true⟩ := by
  have hwf' := h.wellFormed hwf
  obtain ⟨_, _, _, _, hgrows, draft, chain, hregisters, _, emitted, hemits, hlinked, _⟩ := h
  have hnext : draft.nextNode = g.nextNode := hregisters.nextNode_eq
  obtain ⟨hascending, hnew⟩ := hemits.ascending
  refine ⟨hascending, fun n hn => ?_⟩
  obtain ⟨name, op, hnode⟩ := hemits.node?_of_mem hn
  rw [← hlinked.node?] at hnode
  exact ⟨hnext ▸ hnew n hn, (hwf'.stored n _ hnode).2, name, op, hnode⟩

end Lowers

/-! ## One after the other -/

inductive LowersEach : Graph → List NodeId → List Lowered → Graph → Prop
  | nil {g : Graph} : LowersEach g [] [] g
  | cons {g g₁ g' : Graph} {id : NodeId} {ids : List NodeId} {result : Lowered} {results : List Lowered}
      (head : g.Lowers id result.nodes g₁) (rest : LowersEach g₁ ids results g') :
      LowersEach g (id :: ids) (result :: results) g'

namespace LowersEach

variable {results : List Lowered}

theorem length_eq (h : g.LowersEach ids results g') : results.length = ids.length := by
  induction h with
  | nil => rfl
  | cons _ _ ih => exact congrArg (· + 1) ih

theorem evolves (h : g.LowersEach ids results g') : g.Evolves g' := by
  induction h with
  | nil => exact Std.Refl.refl _
  | cons hhead _ ih => exact IsTrans.trans _ _ _ hhead.evolves ih

theorem node?_of_kept (h : g.LowersEach ids results g') (hwf : g.WellFormed)
    (hnode : g.node? n = some node) (hkept : n ∉ ids ∨ ¬ node.kind.isComposite) :
    g'.node? n = some node := by
  induction h with
  | nil => exact hnode
  | @cons g g₁ g' id ids result results hhead _ ih =>
    have hne : n ≠ id := by
      rintro rfl
      obtain ⟨other, op, hother, hkind, _⟩ := hhead
      rw [hnode] at hother
      cases hother
      rcases hkept with hmem | hprimitive
      · exact hmem List.mem_cons_self
      · exact hprimitive (by rw [hkind]; rfl)
    refine ih (hhead.wellFormed hwf) (hhead.node?_of_ne hwf hnode hne) ?_
    exact hkept.imp_left fun hmem hrest => hmem (List.mem_cons_of_mem id hrest)

theorem node?_composite (h : g.LowersEach ids results g') (hwf : g.WellFormed)
    (hnode : g'.node? n = some node) (hkind : node.kind.isComposite) :
    g.node? n = some node ∧ n ∉ ids := by
  induction h with
  | nil => exact ⟨hnode, List.not_mem_nil⟩
  | @cons g g₁ g' id ids result results hhead _ ih =>
    obtain ⟨hnode₁, hrest⟩ := ih (hhead.wellFormed hwf) hnode
    obtain ⟨hold, hne⟩ := hhead.node?_composite hwf hnode₁ hkind
    exact ⟨hold, fun hmem => (List.mem_cons.mp hmem).elim hne hrest⟩

/-- The chains are in the graph at the end, each under larger numbers than those before it. -/
theorem emitted (h : g.LowersEach ids results g') (hwf : g.WellFormed) :
    (results.flatMap (·.nodes)).Pairwise (fun a b => a.index < b.index) ∧
      ∀ n ∈ results.flatMap (·.nodes),
        g.nextNode ≤ n.index ∧ ∃ name op, g'.node? n = some ⟨n, name, .operator op, true⟩ := by
  induction h with
  | nil => exact ⟨.nil, fun _ hn => (nomatch hn)⟩
  | @cons g g₁ g' id ids result results hhead hrest ih =>
    have hwf₁ := hhead.wellFormed hwf
    have hnext := (hhead.evolves hwf).2.1.1
    obtain ⟨hascending, hnodes⟩ := hhead.emitted hwf
    obtain ⟨hascending', hnodes'⟩ := ih hwf₁
    rw [List.flatMap_cons]
    refine ⟨List.pairwise_append.mpr ⟨hascending, hascending', fun a ha b hb => ?_⟩, fun n hn => ?_⟩
    · exact Nat.lt_of_lt_of_le (hnodes a ha).2.1 (hnodes' b hb).1
    · rcases List.mem_append.mp hn with hn | hn
      · obtain ⟨hnew, _, name, op, hnode⟩ := hnodes n hn
        exact ⟨hnew, name, op, hrest.node?_of_kept hwf₁ hnode (.inr Bool.false_ne_true)⟩
      · exact ⟨Nat.le_trans hnext (hnodes' n hn).1, (hnodes' n hn).2⟩

end LowersEach

/-! ## The composites of a graph -/

def isComposite (g : Graph) (id : NodeId) : Bool :=
  (g.node? id).any (·.kind.isComposite)

theorem isComposite_iff {id : NodeId} :
    g.isComposite id ↔ ∃ node op, g.node? id = some node ∧ node.kind = .composite op := by
  unfold isComposite
  cases g.node? id with
  | none => simp
  | some node => cases hkind : node.kind <;> simp [NodeKind.isComposite, hkind]

theorem mapM_lookup {order : List NodeId} (h : ∀ n ∈ order, g.isLive n)
    (lookup : NodeId → Except Stop (NodeId × Node))
    (hlookup : ∀ n node, g.node? n = some node → lookup n = .ok (n, node)) :
    ∃ nodes, order.mapM lookup = .ok nodes ∧ (nodes.filter (·.2.kind.isComposite)).map (·.1) =
      order.filter g.isComposite := by
  induction order with
  | nil => exact ⟨[], rfl, rfl⟩
  | cons n rest ih =>
    obtain ⟨nodes, hrun, hnodes⟩ := ih fun m hm => h m (List.mem_cons_of_mem n hm)
    obtain ⟨node, hnode⟩ := isLive_iff.mp (h n List.mem_cons_self)
    refine ⟨(n, node) :: nodes, ?_, ?_⟩
    · rw [List.mapM_cons, hrun, hlookup n node hnode]
      rfl
    · have hkind : g.isComposite n = node.kind.isComposite := by simp [isComposite, hnode]
      rw [List.filter_cons, List.filter_cons, hkind, apply_ite (List.map _), List.map_cons, hnodes]

theorem composites_eq {order : List NodeId}
    (hends : ∀ e ∈ g.edges, g.isLive e.source ∧ g.isLive e.target)
    (h : g.topologicalOrder = .ok order) : g.composites = .ok (order.filter g.isComposite) := by
  have hordered := ordered_of_topologicalOrder hends h
  unfold composites
  rw [h]
  show Except.bind (order.mapM _) _ = _
  generalize hlookup : (fun id => _ : NodeId → Except Stop (NodeId × Node)) = lookup
  obtain ⟨nodes, hrun, hnodes⟩ :=
    mapM_lookup (fun n hn => (hordered.mem n).mp hn) lookup fun n node hnode => by
    rw [← hlookup]
    simp only [hnode]
  rw [hrun, ← hnodes]
  rfl

end Graph

theorem Report.foldl_add (results : List Lowered) (r : Report) :
    results.foldl Report.add r =
      ⟨r.lowered + results.length, r.nodes ++ results.flatMap (·.nodes),
        r.diagnostics ++ results.flatMap (·.diagnostics)⟩ := by
  induction results generalizing r with
  | nil => simp
  | cons result rest ih =>
    rw [List.foldl_cons, ih]
    simp only [Report.add, List.length_cons, List.flatMap_cons,
      List.append_assoc, Report.mk.injEq, and_true]
    omega

namespace Edit

variable {s s' : Session} {options : Options} {ids : List NodeId}

/-! ## The computation -/

theorem mapM_lowerNode {results : List Lowered}
    (h : ids.mapM (lowerNode · options) s = .ok results s') :
    s.graph.LowersEach ids results s'.graph := by
  induction ids generalizing s results with
  | nil =>
    cases h
    exact .nil
  | cons id rest ih =>
    rw [List.mapM_cons, run_bind_eq_ok] at h
    obtain ⟨result, s₁, hhead, hothers⟩ := h
    obtain ⟨others, s₂, hrest, hreturn⟩ := run_bind_eq_ok.mp hothers
    cases hreturn
    exact .cons ((lowerNode_run id options s).1 _ _ hhead) (ih hrest)

/-- The loop ends with what lowering one by one returns, or it stops at a composite of which all
before it were lowered. -/
theorem foldlM_lowerNode (options : Options) (ids : List NodeId) (r : Report) (s : Session) :
    match (ids.foldlM (fun report id => do return report.add (← lowerNode id options)) r :
      Edit Report) s with
    | .ok r' s' =>
      ∃ results, ids.mapM (lowerNode · options) s = .ok results s' ∧ r' = results.foldl Report.add r
    | .error stop s' => ∃ done id left results s₁, ids = done ++ id :: left ∧
        done.mapM (lowerNode · options) s = .ok results s₁ ∧
        lowerNode id options s₁ = .error stop s' := by
  induction ids generalizing r s with
  | nil => exact ⟨[], rfl, rfl⟩
  | cons id rest ih =>
    rw [List.foldlM_cons]
    cases hhead : lowerNode id options s with
    | error stop s₁ =>
      rw [run_bind_error (run_bind_error hhead)]
      exact ⟨[], id, rest, [], s, rfl, rfl, hhead⟩
    | ok result s₁ =>
      have hstep : (do return r.add (← lowerNode id options) : Edit Report) s =
          .ok (r.add result) s₁ := by
        rw [run_bind_ok hhead]
        rfl
      have hcons : ∀ ids results s₂, ids.mapM (lowerNode · options) s₁ = .ok results s₂ →
          (id :: ids).mapM (lowerNode · options) s = .ok (result :: results) s₂ := by
        intro ids results s₂ hrun
        rw [List.mapM_cons, run_bind_ok hhead, run_bind_ok hrun]
        rfl
      rw [run_bind_ok hstep]
      have hrest := ih (r.add result) s₁
      split
      · next hrun =>
        rw [hrun] at hrest
        obtain ⟨results, hmapM, hreport⟩ := hrest
        exact ⟨result :: results, hcons _ _ _ hmapM, hreport⟩
      · next hrun =>
        rw [hrun] at hrest
        obtain ⟨done, id', left, results, s₂, rfl, hmapM, hstop⟩ := hrest
        exact ⟨id :: done, id', left, result :: results, s₂, rfl, hcons _ _ _ hmapM, hstop⟩

theorem lowerGraph_eq {order : List NodeId} (hwf : s.graph.WellFormed)
    (horder : s.graph.topologicalOrder = .ok order) :
    lowerGraph options s = ((order.filter s.graph.isComposite).foldlM
      (fun report id => do return report.add (← lowerNode id options)) .empty : Edit Report) s := by
  unfold lowerGraph
  rw [run_bind_ok (show Edit.graph s = .ok s.graph s from rfl), Graph.composites_eq hwf.ends horder]

theorem lowerGraph_of_no_order {stop : Stop} (h : s.graph.topologicalOrder = .error stop) :
    lowerGraph options s = .error stop s := by
  have hcomposites : s.graph.composites = .error stop := by
    unfold Graph.composites
    rw [h]
    rfl
  unfold lowerGraph
  rw [run_bind_ok (show Edit.graph s = .ok s.graph s from rfl), hcomposites]
  rfl

/-- All composites were lowered one by one, and the report says so. -/
structure LoweredAll (options : Options) (s : Session) (ids : List NodeId)
    (report : Report) (s' : Session) : Prop where
  left : ∀ n, ¬ s'.graph.isComposite n
  lowered : report.lowered = ids.length
  results : ∃ results, ids.mapM (lowerNode · options) s = .ok results s' ∧
    report.nodes = results.flatMap (·.nodes) ∧ report.diagnostics = results.flatMap (·.diagnostics)
  ascending : report.nodes.Pairwise fun a b => a.index < b.index
  primitives : ∀ n ∈ report.nodes, ∃ name op, s'.graph.node? n = some ⟨n, name, .operator op, true⟩

/-- A composite was refused. Those before it are lowered; it and those after it are as they were. -/
def StoppedAt (options : Options) (s : Session) (ids : List NodeId) (e : LowerError)
    (s' : Session) : Prop :=
  ∃ done id left results s₁,
    ids = done ++ id :: left ∧ done.mapM (lowerNode · options) s = .ok results s₁ ∧
    lowerNode id options s₁ = .error (.rejected e) s' ∧ s₁.graph.SameContents s'.graph ∧
    ∀ n ∈ id :: left, s.graph.isComposite n ∧ s'.graph.node? n = s.graph.node? n

theorem loweredAll {order : List NodeId} {report : Report} (hwf : s.graph.WellFormed)
    (horder : s.graph.topologicalOrder = .ok order) (h : lowerGraph options s = .ok report s') :
    LoweredAll options s (order.filter s.graph.isComposite) report s' := by
  have hloop := foldlM_lowerNode options (order.filter s.graph.isComposite) .empty s
  rw [← lowerGraph_eq hwf horder, h] at hloop
  obtain ⟨results, hrun, rfl⟩ := hloop
  have heach := mapM_lowerNode hrun
  obtain ⟨hascending, hnodes⟩ := heach.emitted hwf
  rw [Report.foldl_add]
  simp only [Report.empty, List.nil_append, Nat.zero_add]
  refine ⟨fun n hn => ?_, heach.length_eq, ⟨results, hrun, rfl, rfl⟩,
    hascending, fun n hn => (hnodes n hn).2⟩
  obtain ⟨node, hnode, hkind⟩ := (Option.any_eq_true _ _).mp hn
  obtain ⟨hold, hleft⟩ := heach.node?_composite hwf hnode hkind
  -- a composite that is left was one before, so it was among those that were lowered
  refine hleft (List.mem_filter.mpr ⟨?_, (Option.any_eq_true _ _).mpr ⟨node, hold, hkind⟩⟩)
  exact ((Graph.ordered_of_topologicalOrder hwf.ends horder).mem n).mpr (Graph.isLive_of_node? hold)

theorem stoppedAt {order : List NodeId} {e : LowerError} (hwf : s.graph.WellFormed)
    (hflows : s.graph.Flows) (horder : s.graph.topologicalOrder = .ok order)
    (h : lowerGraph options s = .error (.rejected e) s') :
    StoppedAt options s (order.filter s.graph.isComposite) e s' := by
  have hloop := foldlM_lowerNode options (order.filter s.graph.isComposite) .empty s
  rw [← lowerGraph_eq hwf horder, h] at hloop
  obtain ⟨done, id, left, results, s₁, hids, hrun, hstop⟩ := hloop
  have heach := mapM_lowerNode hrun
  obtain ⟨hwf₁, _, hflows₁⟩ := heach.evolves hwf
  have hsame := ((lowerNode_run id options s₁).2 e s' hstop).sameContents hwf₁ (hflows₁ hflows)
  refine ⟨done, id, left, results, s₁, hids, hrun, hstop, hsame, fun n hn => ?_⟩
  have hmem : n ∈ order.filter s.graph.isComposite := hids ▸ List.mem_append_right done hn
  have hcomposite := (List.mem_filter.mp hmem).2
  obtain ⟨node, hnode, _⟩ := (Option.any_eq_true _ _).mp hcomposite
  have hdone : n ∉ done := by
    have hnodup := (Graph.ordered_of_topologicalOrder hwf.ends horder).nodup.filter s.graph.isComposite
    rw [hids] at hnodup
    exact fun h => (List.nodup_append.mp hnodup).2.2 n h n hn rfl
  refine ⟨hcomposite, ?_⟩
  rw [hsame.node?, hnode]
  exact heach.node?_of_kept hwf hnode (.inl hdone)

/-- Lowering a graph fails without a trace if there is a cycle. Otherwise it lowers the composites
one by one in topological order: all of them, or those before the first that is refused. -/
theorem lowerGraph_one_by_one {calls : List Call} {w : World} (hcalls : World.after calls = some w)
    (hconnect : ∀ call ∈ calls, ¬ call.isConnect) (options : Options) :
    (∀ stop, w.graph.topologicalOrder = .error stop →
      (∃ visited total, stop = .rejected (.graph (.cycle visited total))) ∧
        lowerGraph options w.session = .error stop w.session) ∧
    ∀ order, w.graph.topologicalOrder = .ok order →
      (∀ report s, lowerGraph options w.session = .ok report s →
        LoweredAll options w.session (order.filter w.graph.isComposite) report s) ∧
      ∀ e s, lowerGraph options w.session = .error (.rejected e) s →
        StoppedAt options w.session (order.filter w.graph.isComposite) e s := by
  have hsound := World.after_sound hcalls
  have hwf := hsound.wellFormed
  refine ⟨fun stop hstop => ?_, fun order horder => ?_⟩
  · exact ⟨Graph.cycle_of_topologicalOrder hwf.ends hstop, lowerGraph_of_no_order hstop⟩
  · exact ⟨fun report s h => loweredAll hwf horder h,
      fun e s h => stoppedAt hwf (hsound.flows hconnect) horder h⟩

/-- Two convolutions one after the other, of which the second has an output of another type than its
input. -/
theorem lowerGraph_stops_at_second_convolution :
    ∃ w order e s,
        World.after (convolutionCalls .f32 ++ [.addTensor (.computed "z" ⟨.i32, ⟨[1, 1, 2, 2]⟩⟩ none),
        .addComposite (.convolution ⟨⟨2⟩, ⟨1⟩, none, ⟨3⟩, .unit 2, .none⟩)]) = some w ∧
      w.graph.topologicalOrder = .ok order ∧ order.filter w.graph.isComposite = [⟨2⟩, ⟨3⟩] ∧
      lowerGraph .default w.session = .error (.rejected e) s ∧
      s.graph.isComposite ⟨3⟩ ∧ ¬ s.graph.isComposite ⟨2⟩ ∧
      StoppedAt .default w.session (order.filter w.graph.isComposite) e s := by
  have hrun :
      ((World.after (convolutionCalls .f32 ++ [.addTensor (.computed "z" ⟨.i32, ⟨[1, 1, 2, 2]⟩⟩ none),
      .addComposite (.convolution ⟨⟨2⟩, ⟨1⟩, none, ⟨3⟩, .unit 2, .none⟩)])).bind fun w =>
      w.graph.topologicalOrder.toOption.bind fun order =>
      ((lowerGraph .default).rejection? w.session).map fun r =>
        (order.filter w.graph.isComposite, r.2.graph.isComposite ⟨3⟩, r.2.graph.isComposite ⟨2⟩)) =
      some ([⟨2⟩, ⟨3⟩], true, false) := by
    decide +kernel
  obtain ⟨w, hw, hlower⟩ := Option.bind_eq_some_iff.mp hrun
  obtain ⟨order, horder, hlower⟩ := Option.bind_eq_some_iff.mp hlower
  obtain ⟨⟨e, s⟩, hrejection, hall⟩ := Option.map_eq_some_iff.mp hlower
  simp only [Prod.mk.injEq] at hall
  obtain ⟨hids, hthird, hsecond⟩ := hall
  have horder' : w.graph.topologicalOrder = .ok order := by
    cases htop : w.graph.topologicalOrder with
    | ok found =>
      rw [htop] at horder
      cases horder
      rfl
    | error stop =>
      rw [htop] at horder
      cases horder
  have hrejected := rejection?_eq_some hrejection
  exact ⟨w, order, e, s, hw, horder', hids, hrejected, hthird, by simp [hsecond],
    ((lowerGraph_one_by_one hw (by decide) .default).2 order horder').2 e s hrejected⟩

end Edit

end GraphLowering
