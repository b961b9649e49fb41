import GraphLowering.Proofs.Success
import GraphLowering.Proofs.Tracking

/-!
# Restoring the edges of a detached node

What was remembered of a detached node may be used at any time later, after any further calls. Until
then tensors stay registered and numbers of nodes are not given twice (`Graph.Persists`), so that
the nodes with new numbers are those that were not there when the node was detached. Restoring then
appends precisely the edges of `Detachment.Relinks` that are missing, and the number that it returns
is the number of these edges (`Edit.Counts`). It is rejected if and only if a reader of the node is
left without a producer of its tensor (`Edit.restore_error`), and doing it a second time changes
nothing.
-/

namespace GraphLowering

/-- The edges that link the neighbours of a detached node with the nodes that were not there before:
those from where an edge to the node came from to new readers of its tensor, and those to the
readers of the node that are left. Both start at the producer of their tensor. -/
def Detachment.Relinks (d : Detachment) (before now : Graph) (e : Edge) : Prop :=
  now.producer? e.tensor = some e.source ∧
    ((e.source, e.tensor) ∈ d.predecessors ∧ ¬ before.isLive e.target ∧ now.Reads e.target e.tensor ∨
      (e.tensor, e.target) ∈ d.successors ∧ now.isLive e.target)

namespace Graph

variable {allowed : Graph → Edge → Prop} {g g' : Graph} {d : Detachment} {id : NodeId} {node : Node}

theorem Linked.rewires (h : Linked allowed g g') : g.Rewires g' := by
  induction h with
  | refl => rfl
  | @tail g₁ g₂ _ hstep ih =>
    obtain ⟨e, _, _, _, rfl⟩ := hstep
    show g₁.addEdge e = { g with edges := (g₁.addEdge e).edges }
    rw [addEdge_eq, ih]

theorem Linked.appends (h : Linked allowed g g') :
    ∃ added, g' = { g with edges := g.edges ++ added } := by
  obtain ⟨added, hadded⟩ := h.grows.edges_extend
  refine ⟨added, ?_⟩
  rw [hadded]
  exact h.rewires

theorem Linked.restores_iff (h : Linked allowed g g') {e : Edge} :
    d.Restores g' e ↔ d.Restores g e := by
  unfold Detachment.Restores
  rw [h.producer?, h.reads, h.isLive]

/-! ## What lasts -/

/-- The tables fit together, and tensors and nodes keep their numbers. -/
def Persists (g g' : Graph) : Prop :=
  g.WellFormed → g'.WellFormed ∧ g.Ages g' ∧ g.tensors <+: g'.tensors

theorem Persists.of_evolves (h : g.Evolves g') (htensors : g.tensors <+: g'.tensors) : g.Persists g' :=
  fun hwf => ⟨(h hwf).1, (h hwf).2.1, htensors⟩

instance : Allows Persists where
  refl g hwf := ⟨hwf, .refl g, List.prefix_rfl⟩
  trans _ _ _ h h' hwf := by
    obtain ⟨hwf₁, hages₁, htensors₁⟩ := h hwf
    obtain ⟨hwf₂, hages₂, htensors₂⟩ := h' hwf₁
    exact ⟨hwf₂, hages₁.trans hages₂, htensors₁.trans htensors₂⟩
  adding h hwf := ⟨h.wellFormed hwf, h.ages, h.tensors_extend⟩
  connecting {g e} hsource htarget _ hwf := by
    have hstep : Grows (fun _ _ => True) g (g.addEdge e) := .single (.edge hsource htarget trivial)
    exact ⟨hstep.wellFormed hwf, hstep.ages, hstep.tensors_extend⟩
  detaching g id := .of_evolves (.eraseNode g id) List.prefix_rfl
  listingInput _ := .of_evolves (.setInputs _ _) List.prefix_rfl
  listingOutput _ := .of_evolves (.setOutputs _ _) List.prefix_rfl
  refusing {g id _} h := by
    refine .of_evolves h.evolves ?_
    rcases h with rfl | ⟨node, tried, _, hgrows, rfl⟩
    · exact List.prefix_rfl
    · show _ <+: (g.rolledBack id node tried).tensors
      rw [tensors_rolledBack hgrows]

theorem Ages.firstNew_le_iff (h : g.Ages g') (hwf : g.WellFormed) {n : NodeId} (hlive : g'.isLive n) :
    g.nextNode ≤ n.index ↔ ¬ g.isLive n := by
  constructor
  · intro hnew hold
    exact absurd (hwf.lt_of_live hold) (Nat.not_lt.mpr hnew)
  · intro hdead
    rw [← Nat.not_lt]
    intro hlt
    apply hdead
    rw [isLive_eq_isSome, ← h.node?_of_live hlt hlive, ← isLive_eq_isSome]
    exact hlive

theorem Ages.restores_iff (h : g.Ages g') (hwf : g.WellFormed) {e : Edge} :
    (g.detachment id node).Restores g' e ↔ (g.detachment id node).Relinks g g' e := by
  unfold Detachment.Restores Detachment.Relinks
  refine and_congr Iff.rfl (or_congr (and_congr Iff.rfl (and_congr_left fun hreads => ?_)) Iff.rfl)
  exact h.firstNew_le_iff hwf hreads.live

theorem Tracked.registered (h : g.Tracked) (htensors : g.tensors <+: g'.tensors) {e : Edge}
    (he : e ∈ g.edges) :
    (g'.tensor? e.tensor).isSome := by
  have hlt := Nat.lt_of_lt_of_le (h.carried e he) htensors.length_le
  exact Option.isSome_iff_exists.mpr ⟨_, List.getElem?_eq_getElem hlt⟩

end Graph

namespace Edit

variable {s s' : Session} {d : Detachment} {g : Graph} {k : Nat} {stop : Stop}

/-! ## Counting edges -/

def Anywhere (_ _ : Session) : Prop :=
  True

instance : Std.Refl Anywhere :=
  ⟨fun _ => trivial⟩

instance : IsTrans Session Anywhere :=
  ⟨fun _ _ _ _ _ => trivial⟩

/-- The computation returns the number of edges that it adds. -/
def Counts (m : Edit Nat) (s : Session) : Prop :=
  Ends Anywhere m s fun k s' => s'.graph.edges.length = s.graph.edges.length + k

theorem Counts.sum {α : Type} {count : α → Edit Nat} (xs : List α) (h : ∀ x s, Counts (count x) s)
    (s : Session) :
    Counts (sum xs count) s := by
  suffices hfold : ∀ (n : Nat) (s : Session),
      Ends Anywhere (xs.foldlM (fun n x => do return n + (← count x)) n : Edit Nat) s fun k s' =>
        s'.graph.edges.length + n = s.graph.edges.length + k from hfold 0 s
  induction xs with
  | nil => exact fun n s => Ends.pure rfl
  | cons x rest ih =>
    intro n s
    rw [List.foldlM_cons]
    have hhead : Ends Anywhere (do return n + (← count x) : Edit Nat) s fun m s' =>
        s'.graph.edges.length + n = s.graph.edges.length + m :=
      Ends.bind (h x s) fun k s' _ hk => Ends.pure (by omega)
    exact hhead.bind fun m s₁ _ hm => (ih m s₁).mono fun k s₂ _ hk => by omega

theorem addNewEdge_counts (e : Edge) (s : Session) : Counts (addNewEdge e) s := by
  unfold addNewEdge
  refine Ends.read rfl (.ite (fun _ => Ends.pure rfl) fun hnew => ?_)
  have hmodify : Ends Anywhere (modifyGraph (·.addEdge e)) s fun _ s' =>
      s'.graph = s.graph.addEdge e := ⟨trivial, rfl⟩
  refine hmodify.bind fun _ s' _ hs' => Ends.pure ?_
  rw [hs', Graph.addEdge, if_neg hnew, List.length_append]
  rfl

theorem restorePredecessor_counts (source : NodeId) (t : TensorId) (s : Session) :
    Counts (restorePredecessor d source t) s := by
  unfold restorePredecessor
  refine Ends.read rfl (.ite (fun _ => ?_) fun _ => Ends.pure rfl)
  split
  · exact Ends.andThen (orFault_ends _ _) fun _ _ => ⟨trivial, rfl⟩
  · exact Counts.sum _ (fun target => addNewEdge_counts _) s

theorem restoreSuccessor_counts (t : TensorId) (target : NodeId) (s : Session) :
    Counts (restoreSuccessor d t target) s := by
  unfold restoreSuccessor
  refine Ends.read rfl ?_
  split
  · exact Ends.pure rfl
  · split
    · exact Ends.andThen (orFault_ends _ _) fun _ _ => reject_ends _
    · refine Ends.bind (addNewEdge_counts _ s) fun added s' _ hs' =>
        .ite (fun _ => ?_) fun _ => Ends.pure hs'
      exact ⟨trivial, hs'⟩

theorem restore_counts (d : Detachment) (s : Session) : Counts (restore d) s := by
  have hpredecessors : Counts (sum d.predecessors fun p => restorePredecessor d p.1 p.2) s :=
    .sum d.predecessors (fun p => restorePredecessor_counts p.1 p.2) s
  have hsuccessors (s : Session) : Counts (sum d.successors fun p => restoreSuccessor d p.1 p.2) s :=
    .sum d.successors (fun p => restoreSuccessor_counts p.1 p.2) s
  unfold restore
  refine Ends.bind hpredecessors fun before s₁ _ hs₁ =>
    Ends.bind (hsuccessors s₁) fun after s₂ _ hs₂ => Ends.pure ?_
  omega

theorem restore_appends (hwf : s.graph.WellFormed) (hrun : restore d s = .ok k s') :
    ∃ added, s'.graph = { s.graph with edges := s.graph.edges ++ added } ∧
      added.Nodup ∧ added.length = k ∧
      ∀ e, e ∈ added ↔ e ∉ s.graph.edges ∧ d.Restores s.graph e := by
  obtain ⟨hlinked, _, hgraph⟩ := restore_ends.of_ok hrun
  obtain ⟨added, hadded⟩ := Graph.Linked.appends hlinked
  have hedges : s'.graph.edges = s.graph.edges ++ added := by rw [hadded]
  have hnodup := ((Graph.Linked.grows hlinked).wellFormed hwf).nodup
  rw [hedges] at hnodup
  obtain ⟨_, hnodup, hdisjoint⟩ := List.nodup_append.mp hnodup
  refine ⟨added, hadded, hnodup, ?_, fun e => ?_⟩
  · have hcount := (Ends.of_ok (restore_counts d s) hrun).2
    rw [hedges, List.length_append] at hcount
    exact Nat.add_left_cancel hcount
  · have hmem : e ∈ s.graph.edges ∨ e ∈ added ↔ e ∈ s.graph.edges ∨ d.Restores s.graph e := by
      rw [← List.mem_append, ← hedges, hgraph]
      exact Graph.mem_edges_restored
    constructor
    · intro he
      have hnew : e ∉ s.graph.edges := fun hold => hdisjoint e hold e he rfl
      exact ⟨hnew, (hmem.mp (.inr he)).resolve_left hnew⟩
    · rintro ⟨hnew, hrestores⟩
      exact (hmem.mpr (.inr hrestores)).resolve_left hnew

/-- What a second call may add was there or has been added by the first one. -/
theorem restore_again {again : Nat} {s'' : Session} (hwf : s.graph.WellFormed)
    (hrun : restore d s = .ok k s') (hrun' : restore d s' = .ok again s'') :
    again = 0 ∧ s''.graph = s'.graph := by
  obtain ⟨hlinked, _, hgraph⟩ := restore_ends.of_ok hrun
  obtain ⟨more, hmore, _, hlength, hmem⟩ :=
    restore_appends ((Graph.Linked.grows hlinked).wellFormed hwf) hrun'
  have hnil : more = [] := by
    refine List.eq_nil_iff_forall_not_mem.mpr fun e he => ?_
    obtain ⟨hnew, hrestores⟩ := (hmem e).mp he
    apply hnew
    rw [hgraph]
    exact Graph.mem_edges_restored.mpr (.inr ((Graph.Linked.restores_iff hlinked).mp hrestores))
  subst hnil
  rw [List.append_nil] at hmore
  exact ⟨hlength.symm, hmore⟩

/-! ## Readers without a producer -/

theorem sum_eq_error {α : Type} {I : Graph → Prop} {count : α → Edit Nat} {xs : List α}
    (hs : I s.graph) (h : ∀ x ∈ xs, ∀ s, I s.graph → ∀ k s', count x s = .ok k s' → I s'.graph)
    (hrun : sum xs count s = .error stop s') :
    ∃ x ∈ xs, ∃ s₁, I s₁.graph ∧ count x s₁ = .error stop s' := by
  unfold sum at hrun
  generalize 0 = n at hrun
  induction xs generalizing s n with
  | nil => cases hrun
  | cons x rest ih =>
    rw [List.foldlM_cons] at hrun
    cases hcount : count x s with
    | ok k s₁ =>
      have hhead : (do return n + (← count x) : Edit Nat) s = .ok (n + k) s₁ := run_bind_ok hcount
      rw [run_bind_ok hhead] at hrun
      have hs₁ := h x List.mem_cons_self s hs k s₁ hcount
      obtain ⟨y, hy, hstopped⟩ := ih hs₁ (fun y hy => h y (List.mem_cons_of_mem x hy)) _ hrun
      exact ⟨y, List.mem_cons_of_mem x hy, hstopped⟩
    | error e s₁ =>
      have hhead : (do return n + (← count x) : Edit Nat) s = .error e s₁ := run_bind_error hcount
      rw [run_bind_error hhead] at hrun
      cases hrun
      exact ⟨x, List.mem_cons_self, s, hs, hcount⟩

theorem restoreSuccessor_error {t : TensorId} {target : NodeId} (ht : (g.tensor? t).isSome)
    (hs : g.Rewires s.graph) (hrun : restoreSuccessor d t target s = .error stop s') :
    ∃ tensor reader, g.tensor? t = some tensor ∧ g.node? target = some reader ∧ g.producer? t = none ∧
      stop = .rejected (.graph (.unresolvedEdge tensor.name reader.name)) := by
  obtain ⟨tensor, htensor⟩ := Option.isSome_iff_exists.mp ht
  have hstuck : ¬ (g.isLive target → (g.producer? t).isSome) := by
    intro hproduced
    obtain ⟨_, _, hok, _⟩ := restoreSuccessor_succeeds (d := d) hproduced s hs
    rw [hok] at hrun
    cases hrun
  obtain ⟨hlive, hnone⟩ := Classical.not_imp.mp hstuck
  rw [Graph.isLive_eq_isSome] at hlive
  obtain ⟨reader, hreader⟩ := Option.isSome_iff_exists.mp hlive
  have hproducer : g.producer? t = none := Option.not_isSome_iff_eq_none.mp hnone
  refine ⟨tensor, reader, htensor, hreader, hproducer, ?_⟩
  have hviews : s.graph.node? target = some reader ∧ s.graph.producer? t = none ∧
      s.graph.tensor? t = some tensor := by
    rw [hs]
    exact ⟨hreader, hproducer, htensor⟩
  unfold restoreSuccessor at hrun
  rw [run_bind_ok (show Edit.graph s = .ok s.graph s from rfl), hviews.1, hviews.2.1, hviews.2.2]
    at hrun
  cases hrun
  rfl

/-- Restoring stops only at a reader whose tensor has no producer, if the tensors are registered. -/
theorem restore_error
    (hpredecessors : ∀ source t, (source, t) ∈ d.predecessors → (s.graph.tensor? t).isSome)
    (hsuccessors : ∀ t target, (t, target) ∈ d.successors → (s.graph.tensor? t).isSome)
    (hrun : restore d s = .error stop s') :
    ∃ t target tensor reader, (t, target) ∈ d.successors ∧ s.graph.tensor? t = some tensor ∧
      s.graph.node? target = some reader ∧ s.graph.producer? t = none ∧
      stop = .rejected (.graph (.unresolvedEdge tensor.name reader.name)) := by
  have hbefore : Succeeds s.graph.Rewires (sum d.predecessors fun p => restorePredecessor d p.1 p.2) :=
    .sum _ fun p hp => restorePredecessor_succeeds (hpredecessors p.1 p.2 hp)
  obtain ⟨n, s₁, hfirst, hs₁⟩ := hbefore s rfl
  unfold restore at hrun
  rw [run_bind_ok hfirst] at hrun
  cases hafter : sum d.successors (fun p => restoreSuccessor d p.1 p.2) s₁ with
  | ok k s₂ =>
    rw [run_bind_ok hafter] at hrun
    cases hrun
  | error e s₂ =>
    rw [run_bind_error hafter] at hrun
    cases hrun
    have hlinked : ∀ p ∈ d.successors, ∀ s₂, s.graph.Rewires s₂.graph →
        ∀ k s₃, restoreSuccessor d p.1 p.2 s₂ = .ok k s₃ →
        s.graph.Rewires s₃.graph := by
      intro p hp s₂ hs₂ k s₃ hok
      have hrewires := Graph.Linked.rewires ((restoreSuccessor_ends hp).of_ok hok).1
      unfold Graph.Rewires at hs₂ hrewires ⊢
      rw [hrewires, hs₂]
    obtain ⟨⟨t, target⟩, hmem, s₂, hs₂, hstop⟩ := sum_eq_error hs₁ hlinked hafter
    obtain ⟨tensor, reader, h⟩ := restoreSuccessor_error (hsuccessors t target hmem) hs₂ hstop
    exact ⟨t, target, tensor, reader, hmem, h⟩

/-! ## After any calls -/

/-- What was remembered of a node is restored after any further calls. If a reader of the node is
left without a producer, this is rejected. Otherwise the missing edges are appended and counted, and
a second time nothing is left to do. -/
theorem restore_exact {before after : List Call} {w₀ w : World} {id : NodeId} {kind : NodeKind}
    {d : Detachment} {s : Session} (hbefore : World.after before = some w₀)
    (hdetach : detach id w₀.session = .ok (kind, d) s)
    (hafter : after.foldlM Call.perform ⟨s, w₀.captured ++ [d]⟩ = some w) :
    ((∃ t target, (t, target) ∈ d.successors ∧ w.graph.isLive target ∧ w.graph.producer? t = none) →
      ∃ t target tensor reader s', (t, target) ∈ d.successors ∧ w.graph.tensor? t = some tensor ∧
        w.graph.node? target = some reader ∧ w.graph.producer? t = none ∧
        restore d w.session =
          .error (.rejected (.graph (.unresolvedEdge tensor.name reader.name))) s') ∧
    ((∀ t target, (t, target) ∈ d.successors → w.graph.isLive target → (w.graph.producer? t).isSome) →
      ∃ k s' added, restore d w.session = .ok k s' ∧
        s'.graph = { w.graph with edges := w.graph.edges ++ added } ∧
        added.Nodup ∧ added.length = k ∧
        (∀ e, e ∈ added ↔ e ∉ w.graph.edges ∧ d.Relinks w₀.graph w.graph e) ∧
        ∃ s'', restore d s' = .ok 0 s'' ∧ s''.graph = s'.graph) := by
  have htracked := World.after_tracked hbefore
  obtain ⟨node, _, _, rfl, hs⟩ := detach_eq_ok hdetach
  have hpersists : w₀.graph.Persists w.graph := by
    refine IsTrans.trans _ s.graph _ ?_ (World.leads hafter)
    rw [hs]
    exact Graph.Allows.detaching _ id
  obtain ⟨hwf, hages, htensors⟩ := hpersists htracked.wellFormed
  have hpredecessors : ∀ source t, (source, t) ∈ (w₀.graph.detachment id node).predecessors →
      (w.graph.tensor? t).isSome :=
    fun source t hmem => htracked.registered htensors (Graph.mem_predecessors_detachment.mp hmem)
  have hsuccessors : ∀ t target, (t, target) ∈ (w₀.graph.detachment id node).successors →
      (w.graph.tensor? t).isSome :=
    fun t target hmem => htracked.registered htensors (Graph.mem_successors_detachment.mp hmem).1
  constructor
  · rintro ⟨t, target, hmem, hlive, hnone⟩
    cases hrun : restore (w₀.graph.detachment id node) w.session with
    | ok k s' =>
      have hproduced := (restore_ends.of_ok hrun).2.1 t target hmem hlive
      rw [hnone] at hproduced
      cases hproduced
    | error stop s' =>
      obtain ⟨u, c, tensor, reader, hu, htensor, hreader, hproducer, rfl⟩ :=
        restore_error hpredecessors hsuccessors hrun
      exact ⟨u, c, tensor, reader, s', hu, htensor, hreader, hproducer, rfl⟩
  · intro hproduced
    have hsucceeds := restore_succeeds hpredecessors hproduced
    obtain ⟨k, s', hrun, hs'⟩ := hsucceeds w.session rfl
    obtain ⟨again, s'', hrun', _⟩ := hsucceeds s' hs'
    obtain ⟨added, hadded, hnodup, hlength, hmem⟩ := restore_appends hwf hrun
    obtain ⟨rfl, hsame⟩ := restore_again hwf hrun hrun'
    refine ⟨k, s', added, hrun, hadded, hnodup, hlength, fun e => ?_, s'', hrun', hsame⟩
    rw [hmem, hages.restores_iff htracked.wellFormed]

/-- A convolution with two readers makes way for a product of its operands, which is already linked
with the operands and gets the two readers. -/
theorem restore_exact_two_readers :
    ∃ w₀ kind d s w s' added,
      World.after (convolutionCalls .f32 ++ [.markOutput ⟨2⟩, .markOutput ⟨2⟩]) = some w₀ ∧
      detach ⟨2⟩ w₀.session = .ok (kind, d) s ∧
      [Call.addOperator ⟨.mul .none, [⟨0⟩, ⟨1⟩], [⟨2⟩]⟩ true].foldlM Call.perform
        ⟨s, w₀.captured ++ [d]⟩ = some w ∧
      restore d w.session = .ok 2 s' ∧ s'.graph = { w.graph with edges := w.graph.edges ++ added } ∧
      added.Nodup ∧ added.length = 2 ∧ ∀ e, e ∈ added ↔
        e ∉ w.graph.edges ∧ d.Relinks w₀.graph w.graph e := by
  have hrun :
      ((World.after (convolutionCalls .f32 ++ [.markOutput ⟨2⟩, .markOutput ⟨2⟩])).bind fun w₀ =>
      ((detach ⟨2⟩).success? w₀.session).bind fun r =>
      ([Call.addOperator ⟨.mul .none, [⟨0⟩, ⟨1⟩], [⟨2⟩]⟩ true].foldlM Call.perform
          ⟨r.2, w₀.captured ++ [r.1.2]⟩).bind fun w =>
      ((restore r.1.2).success? w.session).map fun restored =>
        (r.1.2.successors.all fun p => (w.graph.producer? p.1).isSome, restored.1)) =
          some (true, 2) := by
    decide +kernel
  obtain ⟨w₀, hw₀, hdetached⟩ := Option.bind_eq_some_iff.mp hrun
  obtain ⟨⟨⟨kind, d⟩, s⟩, hdetach, hperformed⟩ := Option.bind_eq_some_iff.mp hdetached
  obtain ⟨w, hw, hrestored⟩ := Option.bind_eq_some_iff.mp hperformed
  obtain ⟨⟨k, s'⟩, hrestore, hall⟩ := Option.map_eq_some_iff.mp hrestored
  obtain ⟨hproduced, rfl⟩ := Prod.mk.inj hall
  have hok := success?_eq_some hdetach
  obtain ⟨_, _, added, hrun', hgraph, hnodup, hlength, hmem, _⟩ :=
      (restore_exact hw₀ hok hw).2 fun t target hsuccessor _ =>
    List.all_eq_true.mp hproduced (t, target) hsuccessor
  rw [success?_eq_some hrestore] at hrun'
  cases hrun'
  exact ⟨w₀, kind, d, s, w, s', added, hw₀, hok, hw, success?_eq_some hrestore,
    hgraph, hnodup, hlength, hmem⟩

end Edit

end GraphLowering
