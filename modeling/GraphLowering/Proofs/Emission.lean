import GraphLowering.Lowering.Chain
import GraphLowering.Proofs.Insertion
import Mathlib.Data.List.Forall2

/-!
# Putting a chain in the place of a detached node

`Graph.Emits` is the insertion of the operators of a chain one after the other. After that,
`Edit.restore` only adds edges (`Graph.Linked`), in two passes (`Graph.restored`), and it adds
precisely those of `Detachment.Restores`.

All edges that are added on the way are allowed by `Detachment.Permits`: they start at the producer
of their tensor, and they lead to a new node that reads the tensor or take the place of an edge that
the detached node had.
-/

namespace GraphLowering

/-- The edges that may be added while a detached node is replaced. -/
def Detachment.Permits (d : Detachment) (g : Graph) (e : Edge) : Prop :=
  g.producer? e.tensor = some e.source ∧
    (d.firstNew ≤ e.target.index ∧ g.Reads e.target e.tensor ∨ (e.tensor, e.target) ∈ d.successors)

/-- The edges that link the neighbours of a detached node with what was added since. -/
def Detachment.Restores (d : Detachment) (g : Graph) (e : Edge) : Prop :=
  g.producer? e.tensor = some e.source ∧
    ((e.source, e.tensor) ∈ d.predecessors ∧ d.firstNew ≤ e.target.index ∧ g.Reads e.target e.tensor ∨
      (e.tensor, e.target) ∈ d.successors ∧ g.isLive e.target)

namespace Graph

variable {allowed : Graph → Edge → Prop} {g g' : Graph}

theorem mem_newReaders {d : Detachment} {t : TensorId} {id : NodeId} :
    id ∈ g.newReaders d t ↔ d.firstNew ≤ id.index ∧ g.Reads id t := by
  unfold newReaders Reads node?
  simp only [List.mem_map, List.mem_filter, Bool.and_eq_true, decide_eq_true_eq, List.contains_iff_mem]
  constructor
  · rintro ⟨⟨i, node⟩, ⟨hmem, hnew, hreads⟩, rfl⟩
    exact ⟨hnew, node, Table.mem_entries.mp hmem, hreads⟩
  · rintro ⟨hnew, node, hnode, hreads⟩
    exact ⟨(id.index, node), ⟨Table.mem_entries.mpr hnode, hnew, hreads⟩, rfl⟩

/-! ## Adding edges only -/

abbrev Linked (allowed : Graph → Edge → Prop) : Graph → Graph → Prop :=
  Relation.ReflTransGen fun g g' =>
    ∃ e, g.isLive e.source ∧ g.isLive e.target ∧ allowed g e ∧ g' = g.addEdge e

namespace Linked

theorem grows (h : Linked allowed g g') : Grows allowed g g' := by
  induction h with
  | refl => exact .refl
  | tail _ hstep ih =>
    obtain ⟨e, hsource, htarget, hallowed, rfl⟩ := hstep
    exact ih.tail (.edge hsource htarget hallowed)

theorem tensor? (h : Linked allowed g g') (id : TensorId) : g'.tensor? id = g.tensor? id := by
  induction h with
  | refl => rfl
  | tail _ hstep ih =>
    obtain ⟨e, _, _, _, rfl⟩ := hstep
    rw [tensor?_addEdge, ih]

theorem node? (h : Linked allowed g g') (id : NodeId) : g'.node? id = g.node? id := by
  induction h with
  | refl => rfl
  | tail _ hstep ih =>
    obtain ⟨e, _, _, _, rfl⟩ := hstep
    rw [node?_addEdge, ih]

theorem isLive (h : Linked allowed g g') (id : NodeId) : g'.isLive id = g.isLive id := by
  rw [isLive_eq_isSome, h.node?]
  rfl

theorem producer? (h : Linked allowed g g') (t : TensorId) : g'.producer? t = g.producer? t := by
  induction h with
  | refl => rfl
  | tail _ hstep ih =>
    obtain ⟨e, _, _, _, rfl⟩ := hstep
    rw [producer?_addEdge, ih]

theorem reads (h : Linked allowed g g') {id : NodeId} {t : TensorId} :
    g'.Reads id t ↔ g.Reads id t := by
  unfold Reads
  rw [h.node?]

theorem dataflow_iff (h : Linked allowed g g') {e : Edge} : g'.Dataflow e ↔ g.Dataflow e := by
  unfold Dataflow
  rw [h.producer?, h.reads]

end Linked

/-- The graph in which the source of an edge to a detached node is linked with the new readers of
its tensor. -/
def feedReaders (d : Detachment) (g : Graph) (p : NodeId × TensorId) : Graph :=
  if g.producer? p.2 = some p.1 then
    (g.newReaders d p.2).foldl (fun g target => g.addEdge ⟨p.1, target, p.2⟩) g
  else
    g

/-- The graph in which the producer of a tensor is linked with a node that read it. -/
def passOn (g : Graph) (p : TensorId × NodeId) : Graph :=
  if g.isLive p.2 then
    match g.producer? p.1 with
    | some source => g.addEdge ⟨source, p.2, p.1⟩
    | none => g
  else
    g

/-- Steps that look only at what edges do not change add what they add in the first graph. -/
theorem mem_edges_foldl {α : Type} {step : Graph → α → Graph} {adds : Graph → α → Edge → Prop}
    {xs : List α} (hstep : ∀ g x, ∀ e, e ∈ (step g x).edges ↔ e ∈ g.edges ∨ adds g x e)
    (hadds : ∀ g x y e, adds (step g x) y e ↔ adds g y e) {e : Edge} :
    e ∈ (xs.foldl step g).edges ↔ e ∈ g.edges ∨ ∃ x ∈ xs, adds g x e := by
  induction xs generalizing g with
  | nil => simp
  | cons x rest ih =>
    rw [List.foldl_cons, ih, hstep]
    simp only [hadds, List.mem_cons, exists_eq_or_imp]
    tauto

theorem feedReaders_views (d : Detachment) (g : Graph) (p : NodeId × TensorId) :
    (∀ t, (g.feedReaders d p).producer? t = g.producer? t) ∧
    ∀ id, (g.feedReaders d p).node? id = g.node? id := by
  unfold feedReaders
  split
  · rw [foldl_addEdge_eq]
    exact ⟨fun _ => rfl, fun _ => rfl⟩
  · exact ⟨fun _ => rfl, fun _ => rfl⟩

theorem passOn_views (g : Graph) (p : TensorId × NodeId) :
    (∀ t, (g.passOn p).producer? t = g.producer? t) ∧ ∀ id, (g.passOn p).node? id = g.node? id := by
  unfold passOn
  split
  · split
    · exact ⟨producer?_addEdge g _, node?_addEdge g _⟩
    · exact ⟨fun _ => rfl, fun _ => rfl⟩
  · exact ⟨fun _ => rfl, fun _ => rfl⟩

theorem mem_edges_feedReaders {d : Detachment} {p : NodeId × TensorId} {e : Edge} :
    e ∈ (g.feedReaders d p).edges ↔ e ∈ g.edges ∨
      g.producer? p.2 = some p.1 ∧ d.firstNew ≤ e.target.index ∧
      g.Reads e.target p.2 ∧ e = ⟨p.1, e.target, p.2⟩ := by
  unfold feedReaders
  split
  · next hproducer =>
    rw [mem_edges_foldl_addEdge fun target => ⟨p.1, target, p.2⟩]
    constructor
    · rintro (he | ⟨target, htarget, rfl⟩)
      · exact .inl he
      · obtain ⟨hnew, hreads⟩ := mem_newReaders.mp htarget
        exact .inr ⟨hproducer, hnew, hreads, rfl⟩
    · rintro (he | ⟨_, hnew, hreads, he⟩)
      · exact .inl he
      · exact .inr ⟨e.target, mem_newReaders.mpr ⟨hnew, hreads⟩, he⟩
  · next hproducer =>
    constructor
    · exact .inl
    · rintro (he | ⟨h, _⟩)
      · exact he
      · exact absurd h hproducer

theorem mem_edges_passOn {p : TensorId × NodeId} {e : Edge} :
    e ∈ (g.passOn p).edges ↔ e ∈ g.edges ∨
      g.isLive p.2 ∧ g.producer? p.1 = some e.source ∧ e = ⟨e.source, p.2, p.1⟩ := by
  unfold passOn
  split
  · next hlive =>
    split
    · next source hsource =>
      rw [mem_edges_addEdge]
      constructor
      · rintro (rfl | he)
        · exact .inr ⟨hlive, hsource, rfl⟩
        · exact .inl he
      · rintro (he | ⟨_, hproducer, he⟩)
        · exact .inr he
        · rw [hsource] at hproducer
          cases hproducer
          exact .inl he
    · next hnone =>
      constructor
      · exact .inl
      · rintro (he | ⟨_, hproducer, _⟩)
        · exact he
        · rw [hnone] at hproducer
          cases hproducer
  · next hdead =>
    constructor
    · exact .inl
    · rintro (he | ⟨hlive, _⟩)
      · exact he
      · exact absurd hlive hdead

theorem foldl_feedReaders_views (d : Detachment) (g : Graph) (ps : List (NodeId × TensorId)) :
    (∀ t, (ps.foldl (feedReaders d) g).producer? t = g.producer? t) ∧
      ∀ id, (ps.foldl (feedReaders d) g).node? id = g.node? id := by
  induction ps generalizing g with
  | nil => exact ⟨fun _ => rfl, fun _ => rfl⟩
  | cons p rest ih =>
    obtain ⟨hproducer, hnode⟩ := feedReaders_views d g p
    obtain ⟨hproducers, hnodes⟩ := ih (g.feedReaders d p)
    exact ⟨fun t => (hproducers t).trans (hproducer t), fun id => (hnodes id).trans (hnode id)⟩

theorem foldl_passOn_views (g : Graph) (ps : List (TensorId × NodeId)) :
    (∀ t, (ps.foldl passOn g).producer? t = g.producer? t) ∧
    ∀ id, (ps.foldl passOn g).node? id = g.node? id := by
  induction ps generalizing g with
  | nil => exact ⟨fun _ => rfl, fun _ => rfl⟩
  | cons p rest ih =>
    obtain ⟨hproducer, hnode⟩ := passOn_views g p
    obtain ⟨hproducers, hnodes⟩ := ih (g.passOn p)
    exact ⟨fun t => (hproducers t).trans (hproducer t), fun id => (hnodes id).trans (hnode id)⟩

/-- The graph after both passes over the neighbours of a detached node. -/
def restored (g : Graph) (d : Detachment) : Graph :=
  d.successors.foldl passOn (d.predecessors.foldl (feedReaders d) g)

theorem producer?_restored (g : Graph) (d : Detachment) (t : TensorId) :
    (g.restored d).producer? t = g.producer? t :=
  ((foldl_passOn_views _ _).1 t).trans ((foldl_feedReaders_views d g _).1 t)

theorem node?_restored (g : Graph) (d : Detachment) (id : NodeId) :
    (g.restored d).node? id = g.node? id :=
  ((foldl_passOn_views _ _).2 id).trans ((foldl_feedReaders_views d g _).2 id)

theorem mem_edges_restored {d : Detachment} {e : Edge} :
    e ∈ (g.restored d).edges ↔ e ∈ g.edges ∨ d.Restores g e := by
  have hviews := foldl_feedReaders_views d g d.predecessors
  unfold restored
  rw [mem_edges_foldl (fun _ _ _ => mem_edges_passOn),
    mem_edges_foldl (fun _ _ _ => mem_edges_feedReaders)]
  · simp only [hviews.1, isLive_eq_isSome, hviews.2]
    unfold Detachment.Restores
    obtain ⟨source, target, tensor⟩ := e
    constructor
    · rintro ((he | ⟨⟨s, t⟩, hmem, hproducer, hnew, hreads, he⟩)
        | ⟨⟨t, c⟩, hmem, hlive, hproducer, he⟩)
      · exact .inl he
      · cases he
        exact .inr ⟨hproducer, .inl ⟨hmem, hnew, hreads⟩⟩
      · cases he
        exact .inr ⟨hproducer, .inr ⟨hmem, hlive⟩⟩
    · rintro (he | ⟨hproducer, ⟨hmem, hnew, hreads⟩ | ⟨hmem, hlive⟩⟩)
      · exact .inl (.inl he)
      · exact .inl (.inr ⟨(source, tensor), hmem, hproducer, hnew, hreads, rfl⟩)
      · exact .inr ⟨(tensor, target), hmem, hlive, hproducer, rfl⟩
  · intro g p q e
    unfold Reads
    rw [(feedReaders_views d g p).1, (feedReaders_views d g p).2]
  · intro g p q e
    rw [(passOn_views g p).1, isLive_eq_isSome, (passOn_views g p).2]
    rfl

/-! ## Inserting a chain -/

/-- The operators of a chain are inserted one after the other, each under the next free number. -/
inductive Emits : Graph → List Operator → List NodeId → Graph → Prop
  | nil {g : Graph} : Emits g [] [] g
  | cons {g g' : Graph} {op : Operator} {chain : List Operator}
      {ids : List NodeId} (contract : op.check g = .ok ())
      (accepted : g.insertError? (.operator op) true = none)
      (rest : Emits (g.insert (.operator op) true) chain ids g') :
      Emits g (op :: chain) (⟨g.nextNode⟩ :: ids) g'

theorem Emits.grows {chain : List Operator} {ids : List NodeId} (h : Emits g chain ids g')
    {first : Nat} (hfirst : first ≤ g.nextNode)
    (hallowed : ∀ g e, g.Dataflow e → first ≤ e.target.index → allowed g e) :
    Grows allowed g g' := by
  induction h with
  | nil => exact .refl
  | @cons g _ op _ _ hcontract haccepted _ ih =>
    have hinsert : Grows allowed g (g.insert (.operator op) true) := by
      refine insert_grows haccepted ?_ fun g' e hflow htarget => hallowed g' e hflow ?_
      · rintro _ ⟨rfl⟩
        exact hcontract
      · rw [htarget]
        exact hfirst
    exact hinsert.trans (ih (Nat.le_trans hfirst hinsert.nextNode_le))

theorem Emits.grown {chain : List Operator} {ids : List NodeId} (h : Emits g chain ids g') :
    Grows (fun _ _ => True) g g' :=
  h.grows (Nat.le_refl _) fun _ _ _ _ => trivial

theorem Emits.nodes {chain : List Operator} {ids : List NodeId} (h : Emits g chain ids g') :
    List.Forall₂ (fun id op =>
      ∃ name, g'.node? id = some ⟨id, name, .operator op, true⟩ ∧ id.index < g'.nextNode)
      ids chain := by
  induction h with
  | nil => exact .nil
  | @cons g g' op chain ids hcontract haccepted hrest ih =>
    refine .cons ⟨g.nameFor (.operator op), ?_, ?_⟩ ih
    · rw [hrest.grown.node?_of_lt nextNode_lt_insert, node?_insert_self]
    · exact Nat.lt_of_lt_of_le nextNode_lt_insert hrest.grown.nextNode_le

theorem Emits.ascending {chain : List Operator} {ids : List NodeId} (h : Emits g chain ids g') :
    ids.Pairwise (fun a b => a.index < b.index) ∧ ∀ id ∈ ids, g.nextNode ≤ id.index := by
  induction h with
  | nil => exact ⟨.nil, fun _ hid => (nomatch hid)⟩
  | @cons g g' op chain ids _ _ _ ih =>
    obtain ⟨hascending, hnew⟩ := ih
    have hlt : ∀ id ∈ ids, g.nextNode < id.index :=
      fun id hid => Nat.lt_of_lt_of_le nextNode_lt_insert (hnew id hid)
    refine ⟨.cons hlt hascending, fun id hid => ?_⟩
    rcases List.mem_cons.mp hid with rfl | hid
    · exact Nat.le_refl _
    · exact Nat.le_of_lt (hlt id hid)

/-- A chain is in the place of a detached node: its operators are inserted, and then precisely the
edges that link them with the neighbours of the node are added. Every reader of the node that is
still there has a producer. -/
def Replaces (g : Graph) (d : Detachment) (chain : List Operator)
    (ids : List NodeId) (g' : Graph) : Prop :=
  ∃ emitted, g.Emits chain ids emitted ∧ emitted.Linked d.Permits g' ∧
    (∀ t target, (t, target) ∈ d.successors → emitted.isLive target → (emitted.producer? t).isSome) ∧
    ∀ e, e ∈ g'.edges ↔ e ∈ emitted.edges ∨ d.Restores emitted e

end Graph

namespace Edit

variable {s : Session} {d : Detachment}

/-! ## Adding up -/

/-- Counting along a list changes the graph by one step for each entry. The fact that each entry
proves may rely on what was done for the entries before it. -/
theorem foldlM_ends {α : Type} {R : Graph → Graph → Prop} [Std.Refl R] [IsTrans Graph R]
    {count : α → Edit Nat} {step : Graph → α → Graph} {fact : α → Prop} {g : Graph} (xs : List α)
    (n : Nat) (hs : R g s.graph)
    (h : ∀ x ∈ xs, ∀ s', R g s'.graph →
      Ends (Along R) (count x) s' fun _ s'' => s''.graph = step s'.graph x ∧ fact x) :
    Ends (Along R) (xs.foldlM (fun n x => do return n + (← count x)) n) s fun _ s' =>
      s'.graph = xs.foldl step s.graph ∧ ∀ x ∈ xs, fact x := by
  induction xs generalizing s n with
  | nil => exact Ends.pure ⟨rfl, fun _ hx => nomatch hx⟩
  | cons x rest ih =>
    rw [List.foldlM_cons]
    have hhead : Ends (Along R) (do return n + (← count x)) s fun _ s' =>
        s'.graph = step s.graph x ∧ fact x :=
      (h x List.mem_cons_self s hs).bind fun _ s' _ hs' => Ends.pure hs'
    refine hhead.bind fun m s' hR hs' => ?_
    rw [List.foldl_cons, ← hs'.1]
    refine (ih m (IsTrans.trans _ _ _ hs hR) fun y hy => h y (List.mem_cons_of_mem x hy)).mono ?_
    rintro _ s'' _ ⟨hgraph, hfacts⟩
    exact ⟨hgraph, List.forall_mem_cons.mpr ⟨hs'.2, hfacts⟩⟩

theorem sum_ends {α : Type} {R : Graph → Graph → Prop} [Std.Refl R] [IsTrans Graph R]
    {count : α → Edit Nat} (step : Graph → α → Graph) (fact : α → Prop) (xs : List α)
    (h : ∀ x ∈ xs, ∀ s', R s.graph s'.graph →
      Ends (Along R) (count x) s' fun _ s'' => s''.graph = step s'.graph x ∧ fact x) :
    Ends (Along R) (sum xs count) s fun _ s' => s'.graph = xs.foldl step s.graph ∧ ∀ x ∈ xs, fact x :=
  foldlM_ends xs 0 (Std.Refl.refl _) h

/-! ## Restoring edges -/

theorem addNewEdge_ends {R : Graph → Graph → Prop} [Std.Refl R] [IsTrans Graph R] {e : Edge}
    (hR : R s.graph (s.graph.addEdge e)) :
    Ends (Along R) (addNewEdge e) s fun _ s' => s'.graph = s.graph.addEdge e := by
  unfold addNewEdge
  refine Ends.read rfl (.ite (fun hmem => ?_) fun hmem => ?_)
  · refine Ends.pure ?_
    rw [Graph.addEdge, if_pos hmem]
  · exact (modifyGraph_ends hR).bind fun _ s' _ hs' => Ends.pure hs'

theorem restorePredecessor_ends (source : NodeId) (tensor : TensorId) :
    Ends (Along (Graph.Linked d.Permits)) (restorePredecessor d source tensor) s fun _ s' =>
      s'.graph = s.graph.feedReaders d (source, tensor) := by
  unfold restorePredecessor Graph.feedReaders
  refine Ends.read rfl (.ite (fun hproducer => ?_) fun hproducer => ?_)
  · rw [if_pos hproducer]
    cases hreaders : s.graph.newReaders d tensor with
    | nil =>
      refine Ends.andThen (orFault_ends _ _) fun t _ => ?_
      exact (note_ends _).bind fun _ s' _ hs' => Ends.pure hs'
    | cons reader rest =>
      refine (sum_ends (fun g target => g.addEdge ⟨source, target, tensor⟩) (fun _ => True)
        (reader :: rest) fun target htarget s' hlinked => ?_).mono fun _ s' _ hs' => hs'.1
      rw [← hreaders] at htarget
      obtain ⟨hnew, hreads⟩ := Graph.mem_newReaders.mp htarget
      have hproducer' : s'.graph.producer? tensor = some source := by rw [hlinked.producer?, hproducer]
      have hreads' : s'.graph.Reads target tensor := hlinked.reads.mpr hreads
      have hflow : s'.graph.Dataflow ⟨source, target, tensor⟩ := ⟨hproducer', hreads'⟩
      refine (addNewEdge_ends (.single ?_)).mono fun _ _ _ h => ⟨h, trivial⟩
      exact ⟨_, hflow.live.1, hflow.live.2, ⟨hproducer', .inl ⟨hnew, hreads'⟩⟩, rfl⟩
  · rw [if_neg hproducer]
    exact Ends.pure rfl

theorem restoreSuccessor_ends {tensor : TensorId} {target : NodeId}
    (hmem : (tensor, target) ∈ d.successors) :
    Ends (Along (Graph.Linked d.Permits)) (restoreSuccessor d tensor target) s fun _ s' =>
      (s.graph.isLive target → (s.graph.producer? tensor).isSome) ∧
        s'.graph = s.graph.passOn (tensor, target) := by
  unfold restoreSuccessor Graph.passOn
  refine Ends.read rfl ?_
  cases htarget : s.graph.node? target with
  | none =>
    have hdead : ¬ s.graph.isLive target := by simp [Graph.isLive_eq_isSome, htarget]
    rw [if_neg hdead]
    exact Ends.pure ⟨fun hlive => absurd hlive hdead, rfl⟩
  | some reader =>
    rw [if_pos (Graph.isLive_of_node? htarget)]
    cases hproducer : s.graph.producer? tensor with
    | none => exact Ends.andThen (orFault_ends _ _) fun t _ => reject_ends _
    | some source =>
      have hlive : s.graph.isLive source := (Graph.producer?_eq_some.mp hproducer).2
      refine (addNewEdge_ends
        (.single ⟨_, hlive, Graph.isLive_of_node? htarget, ⟨hproducer, .inr hmem⟩, rfl⟩)).bind
        fun added s' _ hs' => ?_
      refine .ite (fun _ => ?_) fun _ => Ends.pure ⟨fun _ => rfl, hs'⟩
      exact (note_ends _).bind fun _ s'' _ hs'' => Ends.pure ⟨fun _ => rfl, hs''.trans hs'⟩

/-- Restoring adds edges only. If it does not stop, the readers of the detached node that are left
have a producer, and both passes are done. -/
theorem restore_ends :
    Ends (Along (Graph.Linked d.Permits)) (restore d) s fun _ s' =>
      (∀ t target, (t, target) ∈ d.successors → s.graph.isLive target → (s.graph.producer? t).isSome) ∧
        s'.graph = s.graph.restored d := by
  unfold restore
  refine Ends.bind (sum_ends (Graph.feedReaders d) (fun _ => True) _ fun p _ s' _ =>
    (restorePredecessor_ends p.1 p.2).mono fun _ _ _ h => ⟨h, trivial⟩) fun before s₁ hlinked hs₁ => ?_
  refine Ends.bind (sum_ends Graph.passOn
    (fun p => s.graph.isLive p.2 → (s.graph.producer? p.1).isSome) _ fun p hp s' hs' =>
      (restoreSuccessor_ends hp).mono fun _ _ _ h => ⟨h.2, fun hlive => ?_⟩) fun after s₂ _ hs₂ =>
        Ends.pure ⟨?_, ?_⟩
  · have hlinked' : Graph.Linked d.Permits s.graph s'.graph := Relation.ReflTransGen.trans hlinked hs'
    rw [← hlinked'.producer?]
    exact h.1 (by rw [hlinked'.isLive, hlive])
  · exact fun t target hmem => hs₂.2 (t, target) hmem
  · rw [hs₂.1, hs₁.1]
    rfl

/-! ## Emitting a chain -/

theorem emitOperator_ends {op : Operator} (hnew : d.firstNew ≤ s.graph.nextNode) :
    Ends (Along (Graph.Grows d.Permits)) (emitOperator d op) s fun id s' =>
      op.check s.graph = .ok () ∧ s.graph.insertError? (.operator op) true = none ∧
        id = ⟨s.graph.nextNode⟩ ∧
        s'.graph = s.graph.insert (.operator op) true := by
  unfold emitOperator
  refine Ends.bind (addOperator_ends fun g e hflow htarget => ⟨hflow.1, .inl ⟨?_, hflow.2⟩⟩)
    fun id s' _ h => ?_
  · rw [htarget]
    exact hnew
  · exact (note_ends _).bind fun _ s'' _ hs'' => Ends.pure ⟨h.1, h.2.1, h.2.2.1, hs''.trans h.2.2.2⟩

theorem mapM_emitOperator_ends (chain : List Operator) (hnew : d.firstNew ≤ s.graph.nextNode) :
    Ends (Along (Graph.Grows d.Permits)) (chain.mapM (emitOperator d)) s fun ids s' =>
      s.graph.Emits chain ids s'.graph := by
  induction chain generalizing s with
  | nil =>
    rw [List.mapM_nil]
    exact Ends.pure .nil
  | cons op rest ih =>
    rw [List.mapM_cons]
    refine (emitOperator_ends hnew).bind fun id s₁ hgrows h => ?_
    obtain ⟨hcontract, haccepted, rfl, hs₁⟩ := h
    refine (ih (Nat.le_trans hnew hgrows.nextNode_le)).bind fun ids s₂ _ hemits => Ends.pure ?_
    rw [hs₁] at hemits
    exact .cons hcontract haccepted hemits

theorem emit_ends (chain : List Operator) (hnew : d.firstNew ≤ s.graph.nextNode) :
    Ends (Along (Graph.Grows d.Permits)) (emit chain d) s fun ids s' =>
      s.graph.Replaces d chain ids s'.graph := by
  unfold emit
  refine (mapM_emitOperator_ends chain hnew).bind fun ids s₁ _ hemits => ?_
  have hrestore : Ends (Along (Graph.Grows d.Permits)) (restore d) s₁ fun _ s' =>
      s₁.graph.Linked d.Permits s'.graph ∧
        (∀ t target, (t, target) ∈ d.successors → s₁.graph.isLive target →
          (s₁.graph.producer? t).isSome) ∧
        ∀ e, e ∈ s'.graph.edges ↔ e ∈ s₁.graph.edges ∨ d.Restores s₁.graph e :=
    (restore_ends.mono fun _ s' hlinked h =>
      ⟨hlinked, h.1, fun e => by rw [h.2, Graph.mem_edges_restored]⟩).along
      fun _ hlinked => hlinked.grows
  refine hrestore.bind fun _ s₂ _ ⟨hlinked, hproduced, hedges⟩ =>
    (note_ends _).bind fun _ s₃ _ hs₃ => Ends.pure ?_
  rw [hs₃]
  exact ⟨s₁.graph, hemits, hlinked, hproduced, hedges⟩

theorem verify_ends (chain : List Operator) :
    Ends Eq (verify chain) s fun _ _ => s.graph.checkChain chain = .ok () := by
  unfold verify
  refine Ends.read rfl ?_
  split
  · next hchain => exact Ends.pure hchain
  · exact reject_ends _

end Edit

end GraphLowering
