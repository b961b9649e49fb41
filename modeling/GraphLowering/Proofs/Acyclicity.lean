import GraphLowering.Proofs.Exactness
import GraphLowering.Proofs.Order

/-!
# Lowering keeps a graph acyclic

A chain that replaced a composite is drawn together into the composite. An edge between two of its
operators leads to a larger number, any other edge becomes an edge of the graph before, and
constants are on no cycle, as nothing leads to them. So a cycle through the chain would have been
one through the composite (`Graph.Replaced.feeds_cases`).
-/

namespace GraphLowering

namespace Graph

variable {g g' draft : Graph} {id : NodeId} {node : Node} {op : Composite}

theorem Exact.feeds (h : g.Exact) {a b : NodeId} {t : TensorId}
    (hproducer : g.producer? t = some a) (hreads : g.Reads b t) :
    g.Feeds a b :=
  ⟨t, (h.edges _).mpr ⟨hproducer, hreads⟩⟩

/-- The output of a composite is none of its operands, or it would feed itself. -/
theorem Acyclic.replaceable (hacyclic : g.Acyclic) (hexact : g.Exact) (hnode : g.node? id = some node)
    (hkind : node.kind = .composite op) : g.Replaceable id node op := by
  refine ⟨hexact.wellFormed, hnode, hkind, fun houtput => ?_⟩
  have hproducer := hexact.wellFormed.producer?_output hnode hkind
  have hreads : g.Reads id op.output := ⟨node, hnode, by rw [hkind]; exact houtput⟩
  exact hacyclic id (.single (hexact.feeds hproducer hreads))

def ConstantNode (g : Graph) (n : NodeId) : Prop :=
  ∃ node x, g.node? n = some node ∧ node.kind = .constant x

theorem Reads.not_constantNode {n : NodeId} {t : TensorId} (hreads : g.Reads n t) :
    ¬ g.ConstantNode n := by
  rintro ⟨node, x, hnode, hkind⟩
  obtain ⟨other, hother, hmem⟩ := hreads
  rw [hnode] at hother
  cases hother
  rw [hkind] at hmem
  cases hmem

theorem Exact.not_constantNode (hexact : g.Exact) {a b : NodeId}
    (hpath : Relation.TransGen g.Feeds a b) :
    ¬ g.ConstantNode b := by
  obtain ⟨_, _, t, he⟩ := Relation.TransGen.tail'_iff.mp hpath
  exact ((hexact.edges _).mp he).2.not_constantNode

/-- Where a node was before the composite was replaced: those of the chain were the composite. -/
def origin (g : Graph) (id n : NodeId) : NodeId :=
  if n.index < g.nextNode then n else id

theorem origin_old {n : NodeId} (h : n.index < g.nextNode) : g.origin id n = n :=
  if_pos h

theorem origin_new {n : NodeId} (h : ¬ n.index < g.nextNode) : g.origin id n = id :=
  if_neg h

section Feeds

variable {emitted : Graph} {a b : NodeId} {t : TensorId}

/-- A node that was there gets a tensor from where it got it, or from the chain in the place of the
composite. -/
theorem Emitting.feeds_old (hh : g.Emitting id op draft emitted) (hg : g.Replaceable id node op)
    (hexact : g.Exact) (hproducer : emitted.producer? t = some a) (ha : ¬ emitted.ConstantNode a)
    (hread : emitted.Reads b t) (hold : b.index < g.nextNode) : g.Feeds (g.origin id a) b := by
  have hread' := (hh.reads_old hold hread).1
  by_cases hsource : a.index < g.nextNode
  · rw [origin_old hsource]
    exact hexact.feeds (hh.old t a hproducer hsource) hread'
  · rw [origin_new hsource]
    rcases hh.makers t a hproducer (Nat.le_of_not_lt hsource) with hconst | rfl | ⟨_, ⟨hnew, _⟩, _⟩
    · exact absurd hconst ha
    · exact hexact.feeds hg.producer?_output hread'
    · have := hh.read_lt hg.wellFormed hold hread
      omega

/-- A node of the chain gets a tensor from where the composite got it, or from a node of the chain
with a smaller number. -/
theorem Emitting.feeds_new (hh : g.Emitting id op draft emitted) (hg : g.Replaceable id node op)
    (hexact : g.Exact) (hproducer : emitted.producer? t = some a) (ha : ¬ emitted.ConstantNode a)
    (hread : emitted.Reads b t) (hnew : ¬ b.index < g.nextNode) :
    g.Feeds (g.origin id a) id ∨ ¬ a.index < g.nextNode ∧ a.index < b.index := by
  have hreader := hh.readers b t (Nat.le_of_not_lt hnew) hread
  by_cases hsource : a.index < g.nextNode
  · have hproducer' := hh.old t a hproducer hsource
    rw [origin_old hsource]
    rcases hreader with hinput | ⟨_, ⟨hdrafted, _⟩, _⟩ | ⟨m, hm, hmnew, _⟩
    · exact .inl (hexact.feeds hproducer' (hg.reads hinput))
    · have := (hg.wellFormed.recorded t a (producer?_eq_some.mp hproducer').1).2
      omega
    · rw [hproducer] at hm
      cases hm
      omega
  · rcases hh.makers t a hproducer (Nat.le_of_not_lt hsource) with hconst | hmade
    · exact absurd hconst ha
    · obtain ⟨hnoInput, hnoConstant⟩ := hg.not_read hmade
      rcases hreader with hinput | hconst | ⟨m, hm, _, hlt⟩
      · exact absurd hinput hnoInput
      · exact absurd hconst hnoConstant
      · rw [hproducer] at hm
        cases hm
        exact .inr ⟨hsource, hlt⟩

end Feeds

namespace Replaced

/-- An edge of the new graph that starts at no constant was an edge before, or leads to a larger
number in the chain. -/
theorem feeds_cases (h : g.Replaced id op draft g') (hg : g.Replaceable id node op)
    (hexact : g.Exact) {a b : NodeId} (hfeeds : g'.Feeds a b) (ha : ¬ g'.ConstantNode a) :
    g.Feeds (g.origin id a) (g.origin id b) ∨
      ¬ a.index < g.nextNode ∧ ¬ b.index < g.nextNode ∧ a.index < b.index := by
  obtain ⟨emitted, hemitting, hnodes, hproducers⟩ := h.emitting
  obtain ⟨t, he⟩ := hfeeds
  obtain ⟨hproducer, hread⟩ := (h.exact.edges _).mp he
  rw [hproducers] at hproducer
  unfold Reads at hread
  rw [hnodes] at hread
  unfold ConstantNode at ha
  rw [hnodes] at ha
  by_cases hold : b.index < g.nextNode
  · rw [origin_old hold]
    exact .inl (hemitting.feeds_old hg hexact hproducer ha hread hold)
  · rw [origin_new hold]
    rcases hemitting.feeds_new hg hexact hproducer ha hread hold with hfeeds | ⟨hsource, hlt⟩
    · exact .inl hfeeds
    · exact .inr ⟨hsource, hold, hlt⟩

theorem path_cases (h : g.Replaced id op draft g') (hg : g.Replaceable id node op)
    (hexact : g.Exact) {a b : NodeId} (hpath : Relation.TransGen g'.Feeds a b)
    (ha : ¬ g'.ConstantNode a) :
    Relation.TransGen g.Feeds (g.origin id a) (g.origin id b) ∨
      ¬ a.index < g.nextNode ∧ ¬ b.index < g.nextNode ∧ a.index < b.index := by
  induction hpath with
  | single hstep => exact (h.feeds_cases hg hexact hstep ha).imp_left .single
  | @tail b c hpath hstep ih =>
    -- steps within the chain stay at the composite, so they can be left out on either side
    rcases ih, h.feeds_cases hg hexact hstep (h.exact.not_constantNode hpath) with
      ⟨hbefore | ⟨hanew, hbnew, hab⟩, hedge | ⟨hbnew', hcnew, hbc⟩⟩
    · exact .inl (hbefore.tail hedge)
    · rw [origin_new hbnew'] at hbefore
      rw [origin_new hcnew]
      exact .inl hbefore
    · rw [origin_new hbnew] at hedge
      rw [origin_new hanew]
      exact .inl (.single hedge)
    · exact .inr ⟨hanew, hcnew, Nat.lt_trans hab hbc⟩

theorem acyclic (h : g.Replaced id op draft g') (hg : g.Replaceable id node op) (hexact : g.Exact)
    (hacyclic : g.Acyclic) : g'.Acyclic := by
  intro n hcycle
  rcases h.path_cases hg hexact hcycle (h.exact.not_constantNode hcycle) with hbefore | ⟨_, _, hlt⟩
  · exact hacyclic _ hbefore
  · exact absurd hlt (Nat.lt_irrefl _)

end Replaced

/-- A graph whose edges are exactly the flow of data, and without cycles. -/
structure Dag (g : Graph) : Prop where
  exact : g.Exact
  acyclic : g.Acyclic

/-- Every node that read a tensor through an edge and is still there does so, through one edge. -/
def KeepsFed (g g' : Graph) : Prop :=
  ∀ e ∈ g.edges, g'.isLive e.target → ∃! e', e' ∈ g'.edges ∧ e'.target = e.target ∧ e'.tensor = e.tensor

/-- Edges stay exact and lead in no circle, nodes keep their numbers and what they read. -/
def Keeps (g g' : Graph) : Prop :=
  g.Dag → g'.Dag ∧ g.Ages g' ∧ g.KeepsFed g'

/-- Nodes read what nodes with smaller numbers produce, through an edge, and no constant that has no
node. -/
def isForward (g : Graph) : Bool :=
  g.nodes.entries.all fun (id, node) => node.kind.inputs.all fun t =>
    match g.producer? t with
    | some source => decide (⟨source, ⟨id⟩, t⟩ ∈ g.edges ∧ source.index < id)
    | none => !(g.tensor? t).any (·.isConstant)

theorem isForward_reads (h : g.isForward) {n : NodeId} {t : TensorId} (hreads : g.Reads n t) :
    match g.producer? t with
    | some source => ⟨source, n, t⟩ ∈ g.edges ∧ source.index < n.index
    | none => ¬ (g.tensor? t).any (·.isConstant) := by
  obtain ⟨reader, hreader, hmem⟩ := hreads
  have hnode := List.all_eq_true.mp h (n.index, reader) (Table.mem_entries.mpr hreader)
  have hinput := List.all_eq_true.mp hnode t hmem
  split
  · next hproducer =>
    rw [hproducer] at hinput
    exact of_decide_eq_true hinput
  · next hproducer =>
    rw [hproducer] at hinput
    exact Bool.not_eq_true _ ▸ (Bool.not_eq_true' _).mp hinput

theorem isForward_feeds (h : g.isForward) (hflows : g.Flows) {a b : NodeId} (hfeeds : g.Feeds a b) :
    a.index < b.index := by
  obtain ⟨t, he⟩ := hfeeds
  obtain ⟨hproducer, hread⟩ := hflows _ he
  have hedge := isForward_reads h hread
  rw [hproducer] at hedge
  exact hedge.2

theorem dag_of_isForward (h : g.isForward) (hwf : g.WellFormed) (hflows : g.Flows) : g.Dag where
  exact :=
    { wellFormed := hwf
      edges := by
        refine fun e => ⟨hflows e, fun hflow => ?_⟩
        have hedge := isForward_reads h hflow.2
        rw [hflow.1] at hedge
        exact hedge.1
      constants := by
        intro n t hread hconst
        have hedge := isForward_reads h hread
        cases hproducer : g.producer? t with
        | some source => rfl
        | none =>
          rw [hproducer] at hedge
          exact absurd hconst hedge }
  acyclic n hcycle := by
    have hlt : ∀ b, Relation.TransGen g.Feeds n b → n.index < b.index := by
      intro b hpath
      induction hpath with
      | single hfeeds => exact isForward_feeds h hflows hfeeds
      | tail _ hfeeds ih => exact Nat.lt_trans ih (isForward_feeds h hflows hfeeds)
    exact Nat.lt_irrefl _ (hlt n hcycle)

theorem Exact.keepsFed (hexact : g.Exact) (hexact' : g'.Exact) (hages : g.Ages g')
    (hproduced : ∀ e ∈ g.edges, g'.isLive e.target → (g'.producer? e.tensor).isSome) :
    g.KeepsFed g' := by
  intro e he hlive
  obtain ⟨_, reader, hreader, hmem⟩ := (hexact.edges e).mp he
  obtain ⟨source, hsource⟩ := Option.isSome_iff_exists.mp (hproduced e he hlive)
  have hsame := hages.node?_of_live (hexact.wellFormed.stored _ _ hreader).2 hlive
  have hreads : g'.Reads e.target e.tensor := ⟨reader, hsame.trans hreader, hmem⟩
  refine ⟨⟨source, e.target, e.tensor⟩, ⟨(hexact'.edges _).mpr ⟨hsource, hreads⟩, rfl, rfl⟩, ?_⟩
  rintro ⟨source', target, tensor⟩ ⟨he', rfl, rfl⟩
  have hsource' := ((hexact'.edges _).mp he').1
  rw [hsource] at hsource'
  cases hsource'
  rfl

instance : Std.Refl Keeps where
  refl g hg := by
    refine ⟨hg, .refl g, hg.exact.keepsFed hg.exact (.refl g) fun e he _ => ?_⟩
    rw [((hg.exact.edges e).mp he).1]
    rfl

instance : IsTrans Graph Keeps where
  trans g g' g'' h h' hg := by
    obtain ⟨hg', hages, hfed⟩ := h hg
    obtain ⟨hg'', hages', hfed'⟩ := h' hg'
    refine ⟨hg'', hages.trans hages',
      hg.exact.keepsFed hg''.exact (hages.trans hages') fun e he hlive => ?_⟩
    -- a reader that is there at the end was there in between
    have hlt := hg.exact.wellFormed.lt_of_live ((hg.exact.edges e).mp he).live.2
    have hbetween : g'.isLive e.target := by
      rw [isLive_eq_isSome, ← hages'.node?_of_live (Nat.lt_of_lt_of_le hlt hages.1) hlive]
      exact hlive
    obtain ⟨⟨source, target, tensor⟩, ⟨he', rfl, rfl⟩, _⟩ := hfed e he hbetween
    obtain ⟨e'', ⟨he'', _, htensor⟩, _⟩ := hfed' _ he' hlive
    have hproducer := ((hg''.exact.edges _).mp he'').1
    rw [htensor] at hproducer
    rw [hproducer]
    rfl

theorem Lowers.keeps {ids : List NodeId} (h : g.Lowers id ids g') : g.Keeps g' := by
  intro hg
  have hages := (h.evolves hg.exact.wellFormed).2.1
  obtain ⟨node, op, draft, hreplaceable, hreplaced⟩ := h.replaced hg.exact fun node op hnode hkind =>
    (hg.acyclic.replaceable hg.exact hnode hkind).output
  refine ⟨⟨hreplaced.exact, hreplaced.acyclic hreplaceable hg.exact hg.acyclic⟩, hages, ?_⟩
  exact hg.exact.keepsFed hreplaced.exact hages hreplaced.fed

theorem SameContents.exact (h : g.SameContents g') (hwf : g'.WellFormed) (hexact : g.Exact) :
    g'.Exact := by
  refine ⟨hwf, fun e => ?_, fun n t hreads hconst => ?_⟩
  · rw [h.edges.mem_iff, h.dataflow_iff, hexact.edges]
  · unfold Reads at hreads
    rw [h.node?] at hreads
    unfold tensor? at hconst
    rw [h.tensors] at hconst
    rw [h.producers]
    exact hexact.constants n t hreads hconst

theorem SameContents.feeds_iff (h : g.SameContents g') {a b : NodeId} : g'.Feeds a b ↔ g.Feeds a b :=
  exists_congr fun _ => h.edges.mem_iff

theorem Refuses.keeps (h : g.Refuses id g') : g.Keeps g' := by
  intro hg
  have hwf := h.wellFormed hg.exact.wellFormed
  have hages := (h.evolves hg.exact.wellFormed).2.1
  have hsame := h.sameContents hg.exact.wellFormed hg.exact.flows
  have hexact := hsame.exact hwf hg.exact
  refine ⟨⟨hexact, fun n hcycle => ?_⟩, hages, hg.exact.keepsFed hexact hages fun e he _ => ?_⟩
  · exact hg.acyclic n (Relation.TransGen.mono (fun _ _ h => hsame.feeds_iff.mp h) n n hcycle)
  · rw [hsame.producers, ((hg.exact.edges e).mp he).1]
    rfl

end Graph

namespace Edit

variable {s : Session}

theorem lowerNode_keeps (id : NodeId) (options : Options) :
    Settles Graph.Keeps (lowerNode id options) s fun _ _ => True := by
  obtain ⟨hok, hrejected⟩ := lowerNode_run id options s
  unfold Settles
  split
  · next hrun => exact ⟨(hok _ _ hrun).keeps, trivial⟩
  · next hrun => exact (hrejected _ _ hrun).keeps
  · trivial

/-- Lowering one node or all of them, whether it succeeds or is rejected, leaves the edges exact and
no cycle. The nodes can then be put in order, and every node that is still there gets what it read
through one edge for each tensor. -/
theorem dag_of_lowering (hdag : s.graph.Dag) (options : Options) :
    (∀ id s', (lowerNode id options).leaves? s = some s' → s'.graph.Dag ∧ s.graph.KeepsFed s'.graph) ∧
    ∀ s', (lowerGraph options).leaves? s = some s' →
      s'.graph.Dag ∧ (∃ order, s'.graph.topologicalOrder = .ok order) ∧ s.graph.KeepsFed s'.graph := by
  constructor
  · intro id s' hleaves
    obtain ⟨hdag', _, hfed⟩ := (lowerNode_keeps id options).of_leaves hleaves hdag
    exact ⟨hdag', hfed⟩
  · intro s' hleaves
    have hkeeps := lowerGraph_settles (s := s) fun id _ => lowerNode_keeps id options
    obtain ⟨hdag', _, hfed⟩ := hkeeps.of_leaves hleaves hdag
    exact ⟨hdag', hdag'.acyclic.exists_order hdag'.exact.wellFormed.ends, hfed⟩

/-- Two convolutions one after the other, with the same weight. Of the edges to the second one's
chain none is lost. -/
theorem dag_of_two_convolutions :
    ∃ w s,
        World.after (convolutionCalls .f32 ++ [.addTensor (.computed "z" ⟨.f32, ⟨[1, 1, 2, 2]⟩⟩ none),
        .addComposite (.convolution ⟨⟨2⟩, ⟨1⟩, none, ⟨3⟩, .unit 2, .none⟩)]) = some w ∧
        w.graph.edges.length = 4 ∧
      w.graph.Dag ∧ (lowerGraph .default).leaves? w.session = some s ∧ s.graph.edges.length = 18 ∧
      s.graph.Dag ∧ (∃ order, s.graph.topologicalOrder = .ok order) ∧ w.graph.KeepsFed s.graph := by
  have hrun :
      ((World.after (convolutionCalls .f32 ++ [.addTensor (.computed "z" ⟨.f32, ⟨[1, 1, 2, 2]⟩⟩ none),
      .addComposite (.convolution ⟨⟨2⟩, ⟨1⟩, none, ⟨3⟩, .unit 2, .none⟩)])).bind fun w =>
      ((lowerGraph .default).leaves? w.session).map fun s =>
        (w.graph.edges.length, s.graph.edges.length, w.graph.isForward)) = some (4, 18, true) := by
    decide +kernel
  obtain ⟨w, hw, hlower⟩ := Option.bind_eq_some_iff.mp hrun
  obtain ⟨s, hleaves, hall⟩ := Option.map_eq_some_iff.mp hlower
  simp only [Prod.mk.injEq] at hall
  obtain ⟨hedges, hedges', hforward⟩ := hall
  have hsound := World.after_sound hw
  have hdag := Graph.dag_of_isForward hforward hsound.wellFormed (hsound.flows (by decide))
  exact ⟨w, s, hw, hedges, hdag, hleaves, hedges', (dag_of_lowering hdag .default).2 s hleaves⟩

end Edit

end GraphLowering
