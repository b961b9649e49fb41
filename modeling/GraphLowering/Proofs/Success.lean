import GraphLowering.Proofs.Exactness
import GraphLowering.Proofs.Order
import GraphLowering.Proofs.Threading

/-!
# When a composite can be replaced

In a graph whose edges lead along the flow of data, replacing a composite fails in two ways only: no
outline is found, or the chain of the outline does not suit its tensors (`Graph.Coherent`). Both
look at the tensors of the graph and at nothing else. Restoring the edges and checking the chain in
its place always go well, because the chain hangs together (`Chain.Threaded`).
-/

namespace GraphLowering

namespace Graph

variable {g g' : Graph} {chain : List Operator} {ids : List NodeId}

/-! ## Chains that can be inserted -/

/-- A chain whose operators are in order. A result is not computed twice, and it is no constant that
an operator before has read: such a constant has got a node by then. -/
structure Coherent (g : Graph) (chain : List Operator) : Prop where
  contract : ∀ op ∈ chain, op.check g = .ok ()
  registered : ∀ op ∈ chain, ∀ t ∈ op.inputs ++ op.outputs, (g.tensor? t).isSome
  apart : chain.Pairwise fun op later => ∀ t ∈ later.outputs,
    t ∉ op.outputs ∧ ¬ (t ∈ op.inputs ∧ (g.tensor? t).any (·.isConstant))

def Unclaimed (g : Graph) (chain : List Operator) : Prop :=
  ∀ op ∈ chain, ∀ t ∈ op.outputs, g.producer? t = none

theorem claimError?_of_producer? {t : TensorId} (h : g.producer? t = none) :
    g.claimError? true t = none := by
  unfold claimError?
  split
  · rfl
  · next holder hholder => simp [producer?_eq_none.mp h holder hholder]

theorem insertError?_operator {op : Operator} :
    g.insertError? (.operator op) true = none ↔
      (∀ t ∈ op.inputs ++ op.outputs, (g.tensor? t).isSome) ∧
      ∀ t ∈ op.outputs, g.producer? t = none := by
  rw [insertError?_eq_none]
  exact and_congr Iff.rfl
    (forall₂_congr fun t _ => ⟨producer?_of_claimError?, claimError?_of_producer?⟩)

/-- After an operator is inserted, nothing produces a tensor that it does not compute and that has
not got a node for it. -/
theorem producer?_insert_eq_none (hwf : g.WellFormed) {op : Operator}
    (h : g.Accepts (.operator op) true) {t : TensorId} :
    (g.insert (.operator op) true).producer? t = none ↔
      g.producer? t = none ∧ t ∉ op.outputs ∧ ¬ (t ∈ op.inputs ∧ (g.tensor? t).any (·.isConstant)) := by
  constructor
  · intro hnone
    refine ⟨?_, fun hmem => ?_, fun ⟨hmem, hconst⟩ => ?_⟩
    · cases hproducer : g.producer? t with
      | none => rfl
      | some source => rw [h.grows.producer? hwf hproducer] at hnone; cases hnone
    · rw [producer?_insert_self hwf h hmem] at hnone
      cases hnone
    · have hsome := producer?_insert_isSome hwf h hmem hconst
      rw [hnone] at hsome
      cases hsome
  · rintro ⟨hnone, houtput, hinput⟩
    cases hproducer : (g.insert (.operator op) true).producer? t with
    | none => rfl
    | some source =>
      rcases producer?_insert hwf h hproducer with hold | ⟨_, hmem⟩ | ⟨_, hmem, hconst, _⟩
      · rw [hnone] at hold
        cases hold
      · exact absurd hmem houtput
      · exact absurd ⟨hmem, hconst⟩ hinput

theorem coherent_insert {op : Operator} :
    (g.insert (.operator op) true).Coherent chain ↔ g.Coherent chain := by
  have hcheck : ∀ o : Operator, o.check (g.insert (.operator op) true) = o.check g :=
    fun o => Operator.check_congr fun t _ => tensor?_insert t
  constructor
  · rintro ⟨hcontract, hregistered, hapart⟩
    simp only [hcheck, tensor?_insert] at hcontract hregistered hapart
    exact ⟨hcontract, hregistered, hapart⟩
  · rintro ⟨hcontract, hregistered, hapart⟩
    constructor
    · simpa only [hcheck] using hcontract
    · simpa only [tensor?_insert] using hregistered
    · simpa only [tensor?_insert] using hapart

/-- A chain can be inserted if and only if it is in order and its results are free. -/
theorem emits_iff (hwf : g.WellFormed) :
    (∃ ids g', g.Emits chain ids g') ↔ g.Coherent chain ∧ g.Unclaimed chain := by
  induction chain generalizing g with
  | nil =>
    refine ⟨fun _ => ⟨⟨?_, ?_, .nil⟩, ?_⟩, fun _ => ⟨[], g, .nil⟩⟩
    all_goals exact fun op hop => nomatch hop
  | cons op rest ih =>
    constructor
    · rintro ⟨_, g', hemits⟩
      cases hemits with
      | cons hcontract haccepted hrest =>
        have haccepts := Accepts.of_operator hcontract haccepted
        obtain ⟨hregistered, hfree⟩ := insertError?_operator.mp haccepted
        obtain ⟨hcoherent, hunclaimed⟩ := (ih (haccepts.grows.wellFormed hwf)).mp ⟨_, _, hrest⟩
        rw [coherent_insert] at hcoherent
        have hlater : ∀ later ∈ rest, ∀ t ∈ later.outputs, g.producer? t = none ∧ t ∉ op.outputs ∧ _ :=
          fun later hmem t ht => (producer?_insert_eq_none hwf haccepts).mp (hunclaimed later hmem t ht)
        refine ⟨⟨?_, ?_, ?_⟩, ?_⟩
        · exact List.forall_mem_cons.mpr ⟨hcontract, hcoherent.contract⟩
        · exact List.forall_mem_cons.mpr ⟨hregistered, hcoherent.registered⟩
        · exact .cons (fun later hmem t ht => (hlater later hmem t ht).2) hcoherent.apart
        · exact List.forall_mem_cons.mpr ⟨hfree, fun later hmem t ht => (hlater later hmem t ht).1⟩
    · rintro ⟨⟨hcontract, hregistered, hapart⟩, hunclaimed⟩
      obtain ⟨hcontract, hcontracts⟩ := List.forall_mem_cons.mp hcontract
      obtain ⟨hregistered, hregistereds⟩ := List.forall_mem_cons.mp hregistered
      obtain ⟨hfree, hfrees⟩ := List.forall_mem_cons.mp hunclaimed
      obtain ⟨happartHead, hapart⟩ := List.pairwise_cons.mp hapart
      have haccepted := insertError?_operator.mpr ⟨hregistered, hfree⟩
      have haccepts := Accepts.of_operator hcontract haccepted
      have hnext : (g.insert (.operator op) true).Unclaimed rest := fun later hmem t ht =>
        (producer?_insert_eq_none hwf haccepts).mpr
          ⟨hfrees later hmem t ht, happartHead later hmem t ht⟩
      obtain ⟨ids, g', hrest⟩ := (ih (haccepts.grows.wellFormed hwf)).mpr
        ⟨coherent_insert.mpr ⟨hcontracts, hregistereds, hapart⟩, hnext⟩
      exact ⟨_, g', .cons hcontract haccepted hrest⟩

/-! ## Chains that hang together -/

theorem Emits.edge (h : g.Emits chain ids g') (hwf : g.WellFormed) {t : TensorId} {n : NodeId}
    (hproducer : g.producer? t = some n) (hread : Chain.Reads chain t) : ∃ m, ⟨n, m, t⟩ ∈ g'.edges := by
  induction h with
  | nil =>
    obtain ⟨_, hop, _⟩ := hread
    cases hop
  | @cons g g' op rest ids hcontract haccepted hrest ih =>
    have haccepts := Accepts.of_operator hcontract haccepted
    have hgrown := haccepts.grows.producer? hwf hproducer
    have hwf' := haccepts.grows.wellFormed hwf
    obtain ⟨o, ho, ht⟩ := hread
    rcases List.mem_cons.mp ho with rfl | ho
    · refine ⟨⟨g.nextNode⟩, ?_⟩
      apply hrest.grown.edges_subset
      exact (mem_edges_insert hwf haccepts).mpr
        (.inr ⟨rfl, hgrown, (reads_insert hwf haccepts).mpr (.inr ⟨rfl, ht⟩)⟩)
    · exact ih hwf' hgrown ⟨o, ho, ht⟩

theorem Emits.edges_of_threaded (h : g.Emits chain ids g') (hwf : g.WellFormed)
    {output : TensorId} (hthreaded : Chain.Threaded output chain) :
    ∀ op ∈ chain.dropLast, ∀ t ∈ op.outputs, ∃ n m, ⟨n, m, t⟩ ∈ g'.edges := by
  induction hthreaded generalizing g ids with
  | last _ => exact fun _ hop => nomatch hop
  | @cons op rest hread hrest ih =>
    cases h with
    | cons hcontract haccepted hemits =>
      have haccepts := Accepts.of_operator hcontract haccepted
      have hwf' := haccepts.grows.wellFormed hwf
      cases rest with
      | nil => exact nomatch hrest
      | cons next later =>
        intro o ho t ht
        rw [List.dropLast_cons_cons] at ho
        rcases List.mem_cons.mp ho with rfl | ho
        · exact ⟨_, hemits.edge hwf' (producer?_insert_self hwf haccepts ht) (hread t ht)⟩
        · exact ih hemits hwf' o ho t ht

/-- A tensor is produced by a node that feeds others, and those read what they are fed. -/
def Served (g : Graph) (t : TensorId) : Prop :=
  ∃ n, g.producer? t = some n ∧ (∃ m u, ⟨n, m, u⟩ ∈ g.edges) ∧
    ∀ m u, ⟨n, m, u⟩ ∈ g.edges → g.Reads m u

theorem Flows.served (h : g.Flows) {n m : NodeId} {t : TensorId} (he : ⟨n, m, t⟩ ∈ g.edges) :
    g.Served t :=
  ⟨n, (h _ he).1, ⟨m, t, he⟩, fun _ _ hu => (h _ hu).2⟩

theorem checkLink_ok (hwf : g.WellFormed) {op : Operator} (h : ∀ t ∈ op.outputs, g.Served t) :
    g.checkLink op = .ok () := by
  unfold checkLink
  cases hhead : op.outputs.head? with
  | none => rfl
  | some t =>
    obtain ⟨n, hproducer, ⟨m, u, he⟩, hreads⟩ := h t (List.mem_of_mem_head? hhead)
    obtain ⟨maker, hmaker, hmade⟩ := hwf.producer?_iff.mp hproducer
    obtain ⟨tensor, htensor⟩ :=
      Option.isSome_iff_exists.mp (hwf.registered n maker hmaker t (List.mem_append_right _ hmade))
    have hnamed : g.producerNamed? tensor.name = some n := by
      unfold producerNamed?
      rw [(hwf.indexed tensor.name t).mpr ⟨tensor, htensor, rfl⟩]
      exact hproducer
    simp only [htensor, hnamed]
    have hm : m ∈ g.successors n := mem_successors.mpr ⟨_, he⟩
    cases hsuccessors : g.successors n with
    | nil =>
      rw [hsuccessors] at hm
      cases hm
    | cons reader others =>
      -- a constant reads nothing, so it is no reader
      have hreader : reader ∈ g.successors n := by simp [hsuccessors]
      obtain ⟨u, hu⟩ := mem_successors.mp hreader
      obtain ⟨node, hnode, hreads⟩ := hreads reader u hu
      have hkind : ¬ node.kind.isConstant := by
        cases hk : node.kind <;> simp [hk, NodeKind.inputs, NodeKind.isConstant] at hreads ⊢
      simp [hnode, hkind]

theorem checkChain_ok (hwf : g.WellFormed) (h : ∀ op ∈ chain.dropLast, ∀ t ∈ op.outputs, g.Served t) :
    g.checkChain chain = .ok () := by
  unfold checkChain
  generalize chain.dropLast = ops at h
  induction ops with
  | nil => rfl
  | cons op rest ih =>
    obtain ⟨hop, hrest⟩ := List.forall_mem_cons.mp h
    show (g.checkLink op >>= fun _ => rest.forM g.checkLink) = _
    rw [checkLink_ok hwf hop]
    exact ih hrest

end Graph

/-! ## Computations that do not stop -/

/-- Where `I` holds, the computation ends with a value, and `I` holds again. -/
def Succeeds {α : Type} (I : Graph → Prop) (m : Edit α) : Prop :=
  ∀ s, I s.graph → ∃ a s', m s = .ok a s' ∧ I s'.graph

namespace Succeeds

variable {α β : Type} {I : Graph → Prop} {m : Edit α} {f : α → Edit β}

theorem bind (hm : Succeeds I m) (hf : ∀ a, Succeeds I (f a)) : Succeeds I (m >>= f) := by
  intro s hs
  obtain ⟨a, s', hrun, hs'⟩ := hm s hs
  obtain ⟨b, s'', hrun', hs''⟩ := hf a s' hs'
  exact ⟨b, s'', (run_bind_ok hrun).trans hrun', hs''⟩

theorem pure (a : α) : Succeeds I (Pure.pure a) :=
  fun s hs => ⟨a, s, rfl, hs⟩

theorem read {f : Graph → Edit β} (hf : ∀ g, I g → Succeeds I (f g)) :
    Succeeds I (Edit.graph >>= f) := by
  intro s hs
  obtain ⟨b, s', hrun, hs'⟩ := hf s.graph hs s hs
  exact ⟨b, s', (run_bind_ok (show Edit.graph s = .ok s.graph s from rfl)).trans hrun, hs'⟩

theorem note (event : Event) : Succeeds I (Edit.note event) :=
  fun s hs => ⟨(), ⟨s.graph, s.events ++ [event]⟩, rfl, hs⟩

theorem foldlM {γ : Type} {step : α → γ → Edit α} (xs : List γ) (a : α)
    (h : ∀ a, ∀ x ∈ xs, Succeeds I (step a x)) :
    Succeeds I (xs.foldlM step a) := by
  induction xs generalizing a with
  | nil => exact .pure a
  | cons x rest ih =>
    rw [List.foldlM_cons]
    exact (h a x List.mem_cons_self).bind fun a' =>
      ih a' fun b y hy => h b y (List.mem_cons_of_mem x hy)

theorem sum {γ : Type} {count : γ → Edit Nat} (xs : List γ) (h : ∀ x ∈ xs, Succeeds I (count x)) :
    Succeeds I (Edit.sum xs count) :=
  foldlM xs 0 fun _ x hx => (h x hx).bind fun _ => .pure _

end Succeeds

def Graph.Rewires (g g' : Graph) : Prop :=
  g' = { g with edges := g'.edges }

namespace Edit

variable {s : Session} {d : Detachment} {g : Graph}

theorem addNewEdge_succeeds (e : Edge) : Succeeds g.Rewires (addNewEdge e) := by
  unfold addNewEdge
  refine .read fun g₁ hg₁ => ?_
  split
  · exact .pure 0
  · refine Succeeds.bind (fun s hs => ⟨(), _, rfl, ?_⟩) fun _ => .pure 1
    show s.graph.addEdge e = { g with edges := (s.graph.addEdge e).edges }
    rw [Graph.addEdge_eq, hs]

theorem restorePredecessor_succeeds {source : NodeId} {t : TensorId} (ht : (g.tensor? t).isSome) :
    Succeeds g.Rewires (restorePredecessor d source t) := by
  obtain ⟨tensor, htensor⟩ := Option.isSome_iff_exists.mp ht
  unfold restorePredecessor
  refine .read fun g₁ hg₁ => ?_
  have hknown : g₁.tensor? t = some tensor := by
    rw [hg₁]
    exact htensor
  split
  · split
    · rw [hknown]
      exact Succeeds.bind (.pure tensor) fun _ => (Succeeds.note _).bind fun _ => .pure 0
    · exact .sum _ fun target _ => addNewEdge_succeeds _
  · exact .pure 0

theorem restoreSuccessor_succeeds {target : NodeId} {t : TensorId}
    (ht : g.isLive target → (g.producer? t).isSome) :
    Succeeds g.Rewires (restoreSuccessor d t target) := by
  unfold restoreSuccessor
  refine .read fun g₁ hg₁ => ?_
  cases hnode : g₁.node? target with
  | none => exact .pure 0
  | some reader =>
    have hproduced : (g₁.producer? t).isSome := by
      rw [hg₁] at hnode ⊢
      exact ht (Graph.isLive_of_node? hnode)
    obtain ⟨source, hsource⟩ := Option.isSome_iff_exists.mp hproduced
    simp only [hsource]
    refine (addNewEdge_succeeds _).bind fun added => ?_
    split
    · exact (Succeeds.note _).bind fun _ => .pure added
    · exact .pure added

theorem restore_succeeds
    (hpredecessors : ∀ source t, (source, t) ∈ d.predecessors → (g.tensor? t).isSome)
    (hsuccessors : ∀ t target, (t, target) ∈ d.successors → g.isLive target → (g.producer? t).isSome) :
    Succeeds g.Rewires (restore d) := by
  unfold restore
  refine Succeeds.bind (.sum _ fun p hp => restorePredecessor_succeeds (hpredecessors p.1 p.2 hp))
    fun before => ?_
  refine Succeeds.bind (.sum _ fun p hp => restoreSuccessor_succeeds (hsuccessors p.1 p.2 hp))
    fun after => ?_
  exact .pure _

theorem emitOperator_run {op : Operator} (hcheck : op.check s.graph = .ok ())
    (haccepted : s.graph.insertError? (.operator op) true = none) :
    ∃ events,
      emitOperator d op s = .ok ⟨s.graph.nextNode⟩ ⟨s.graph.insert (.operator op) true, events⟩ := by
  obtain ⟨events, hrun⟩ := insertNode_run haccepted
  have hadd : addOperator op true s =
      .ok ⟨s.graph.nextNode⟩ ⟨s.graph.insert (.operator op) true, events⟩ := by
    unfold addOperator
    rw [run_bind_ok (show Edit.graph s = .ok s.graph s from rfl), hcheck]
    exact hrun
  refine ⟨events ++ [.emitted d.name op.kind ⟨s.graph.nextNode⟩], ?_⟩
  unfold emitOperator
  rw [run_bind_ok hadd]
  rfl

theorem mapM_emitOperator_run {chain : List Operator} {ids : List NodeId} {g' : Graph}
    (h : g.Emits chain ids g') (events : List Event) :
    ∃ events', chain.mapM (emitOperator d) ⟨g, events⟩ = .ok ids ⟨g', events'⟩ := by
  induction h generalizing events with
  | nil => exact ⟨events, rfl⟩
  | @cons g g' op rest ids hcontract haccepted _ ih =>
    obtain ⟨events₁, hhead⟩ := emitOperator_run (s := ⟨g, events⟩) (d := d) hcontract haccepted
    obtain ⟨events₂, hrest⟩ := ih events₁
    refine ⟨events₂, ?_⟩
    rw [List.mapM_cons, run_bind_ok hhead, run_bind_ok hrest]
    rfl

end Edit

/-! ## Replacing a composite -/

theorem Graph.Emits.produced {g g' : Graph} {chain : List Operator} {ids : List NodeId}
    (h : g.Emits chain ids g') (hwf : g.WellFormed) {op : Operator} (hop : op ∈ chain)
    {t : TensorId} (ht : t ∈ op.outputs) : (g'.producer? t).isSome := by
  induction h with
  | nil => cases hop
  | @cons g g' head rest ids hcontract haccepted hrest ih =>
    have haccepts := Accepts.of_operator hcontract haccepted
    have hwf' := haccepts.grows.wellFormed hwf
    rcases List.mem_cons.mp hop with rfl | hop
    · rw [hrest.grown.producer? hwf' (producer?_insert_self hwf haccepts ht)]
      rfl
    · exact ih hwf' hop

section Replacing

variable {s : Session} {id : NodeId} {node : Node} {op : Composite} {options : Options}

theorem Edit.emit_run {g drafted emitted : Graph} {chain : List Operator} {ids : List NodeId}
    (events : List Event) (hwf : g.WellFormed) (hflows : g.Flows) (hnode : g.node? id = some node)
    (hkind : node.kind = .composite op) (hregisters : (g.eraseNode id).Registers drafted)
    (hthreaded : Chain.Threaded op.output chain) (hemits : drafted.Emits chain ids emitted) :
    ∃ s', emit chain (g.detachment id node) ⟨drafted, events⟩ = .ok ids s' := by
  have hgrows : Graph.Grows (fun _ _ => True) (g.eraseNode id) emitted :=
    hregisters.grows.trans hemits.grown
  have hdrafted := hregisters.wellFormed (hwf.eraseNode id)
  have hpredecessors : ∀ source t, (source, t) ∈ (g.detachment id node).predecessors →
      (emitted.tensor? t).isSome := by
    intro source t hmem
    obtain ⟨reader, hreader, hread⟩ := (hflows _ (Graph.mem_predecessors_detachment.mp hmem)).2
    obtain ⟨tensor, htensor⟩ :=
      Option.isSome_iff_exists.mp (hwf.registered id reader hreader t (List.mem_append_left _ hread))
    exact Option.isSome_iff_exists.mpr ⟨tensor, hgrows.tensor? htensor⟩
  have hsuccessors : ∀ t target, (t, target) ∈ (g.detachment id node).successors →
      emitted.isLive target →
      (emitted.producer? t).isSome := by
    intro t target hmem _
    obtain ⟨he, _⟩ := Graph.mem_successors_detachment.mp hmem
    obtain ⟨maker, hmaker, hmade⟩ := hwf.producer?_iff.mp (hflows _ he).1
    rw [hnode] at hmaker
    cases hmaker
    rw [hkind] at hmade
    -- the readers of the composite read its output, and that is what the chain computes in the end
    obtain rfl : t = op.output := List.mem_singleton.mp hmade
    obtain ⟨o, ho, hmakes⟩ := hthreaded.made
    exact hemits.produced hdrafted ho hmakes
  obtain ⟨events₁, hchain⟩ := mapM_emitOperator_run (d := g.detachment id node) hemits events
  obtain ⟨restored, s₂, hrestore, _⟩ :=
    restore_succeeds hpredecessors hsuccessors ⟨emitted, events₁⟩ rfl
  refine ⟨⟨s₂.graph, s₂.events ++ [.edgesRestored (g.detachment id node).name restored]⟩, ?_⟩
  unfold emit
  rw [run_bind_ok hchain, run_bind_ok hrestore]
  rfl

theorem Edit.verify_run {chain : List Operator} (h : s.graph.checkChain chain = .ok ()) :
    verify chain s = .ok () s := by
  unfold verify
  rw [run_bind_ok (show Edit.graph s = .ok s.graph s from rfl), h]
  rfl

theorem Outline.place_run {g drafted emitted : Graph} {o : Outline} {ids : List NodeId}
    (events : List Event) (hwf : g.WellFormed) (hflows : g.Flows) (hnode : g.node? id = some node)
    (hkind : node.kind = .composite op) (hregisters : (g.eraseNode id).Registers drafted)
    (hthreaded : Chain.Threaded op.output o.chain) (hemits : drafted.Emits o.chain ids emitted) :
    ∃ result s', o.place (g.detachment id node) ⟨drafted, events⟩ = .ok result s' := by
  obtain ⟨s', hemit⟩ := Edit.emit_run events hwf hflows hnode hkind hregisters hthreaded hemits
  have hnew : (g.detachment id node).firstNew ≤ drafted.nextNode := hregisters.nextNode_le
  obtain ⟨hgrows, emitted', hemits', hlinked, _⟩ :=
    (Edit.emit_ends (s := ⟨drafted, events⟩) o.chain hnew).of_ok hemit
  have hgrows' : Graph.Grows (g.detachment id node).Permits (g.eraseNode id) s'.graph :=
    hregisters.grows.trans hgrows
  obtain ⟨hwf₁, _, hflows₁⟩ := Graph.Evolves.eraseNode g id hwf
  have hdrafted := hregisters.wellFormed hwf₁
  have hcheck : s'.graph.checkChain o.chain = .ok () := by
    have hflows' : s'.graph.Flows := hgrows'.flows hwf₁ (hflows.current hwf) (hflows₁ hflows)
    refine Graph.checkChain_ok (hgrows'.wellFormed hwf₁) fun o' ho' t ht => ?_
    obtain ⟨n, m, he⟩ := hemits'.edges_of_threaded hdrafted hthreaded o' ho' t ht
    exact hflows'.served (hlinked.grows.edges_subset he)
  have hverify := Edit.verify_run hcheck
  refine ⟨⟨ids, o.diagnostics⟩, s', ?_⟩
  unfold place
  rw [run_bind_ok hemit]
  split
  · rw [run_bind_ok hverify]
    rfl
  · rfl

theorem Composite.Outlines.unclaimed {g drafted : Graph} {o : Outline}
    (h : op.Outlines (g.eraseNode id) o drafted) (hwf : g.WellFormed)
    (hnode : g.node? id = some node) (hkind : node.kind = .composite op) :
    drafted.Unclaimed o.chain := by
  obtain ⟨hregisters, hdrafts⟩ := h
  intro o' ho' t ht
  rw [hregisters.producer?]
  cases hproducer : (g.eraseNode id).producer? t with
  | none => rfl
  | some source =>
    exfalso
    obtain ⟨hsource, hne⟩ := Graph.producer?_eraseNode.mp hproducer
    rcases (hdrafts drafted (List.prefix_refl _)).supplied.made o' ho' t ht with rfl | ⟨_, ⟨hnew, _⟩, _⟩
    · rw [hwf.producer?_output hnode hkind] at hsource
      exact hne (Option.some.inj hsource).symm
    · obtain ⟨maker, hmaker, hmade⟩ := hwf.producer?_iff.mp hsource
      have hlt : t.index < g.tensors.length := hwf.tensor_lt hmaker (List.mem_append_right _ hmade)
      exact absurd hlt (Nat.not_lt.mpr hnew)

/-- A composite that is replaced has an outline, and the chain of the outline is put in its place. -/
theorem Edit.lowerNode_place {result : Lowered} {s' : Session} (hnode : s.graph.node? id = some node)
    (hkind : node.kind = .composite op) (h : lowerNode id options s = .ok result s') :
    ∃ o t s₁, op.outline options ⟨s.graph.eraseNode id, s.events⟩ = .ok o t ∧
      o.place (s.graph.detachment id node) t = .ok result s₁ ∧ s'.graph = s₁.graph := by
  rw [lowerNode_composite hnode hkind] at h
  cases hlower : op.lower (s.graph.detachment id node) options ⟨s.graph.eraseNode id, s.events⟩ with
  | error stop s₁ =>
    exfalso
    cases stop with
    | fault f =>
      rw [lower_of_fault hlower] at h
      cases h
    | rejected e =>
      have hends := op.lower_ends (s := ⟨s.graph.eraseNode id, s.events⟩)
        (d := s.graph.detachment id node) options (Nat.le_refl _)
      have hgrows : Graph.Grows _ (s.graph.eraseNode id) s₁.graph := hends.of_error hlower
      obtain ⟨events, hrun⟩ := lower_of_rejected hlower hgrows.length_le
      rw [hrun] at h
      exact reject_ne_ok h
  | ok result₁ s₁ =>
    obtain ⟨events, hrun⟩ := lower_of_ok hlower
    rw [hrun] at h
    cases h
    rw [op.lower_eq] at hlower
    obtain ⟨o, t, houtline, hplace⟩ := run_bind_eq_ok.mp hlower
    exact ⟨o, t, s₁, houtline, hplace, rfl⟩

theorem Edit.lowerNode_ok {result : Lowered} {s' : Session} (hnode : s.graph.node? id = some node)
    (hkind : node.kind = .composite op) (h : lowerNode id options s = .ok result s') :
    ∃ o t, op.outline options ⟨s.graph.eraseNode id, s.events⟩ = .ok o t ∧
      op.Outlines (s.graph.eraseNode id) o t.graph ∧
      Graph.Grows (s.graph.detachment id node).Permits (s.graph.eraseNode id) s'.graph ∧
      t.graph.Replaces (s.graph.detachment id node) o.chain result.nodes s'.graph := by
  obtain ⟨o, t, s₁, houtline, hplace, hs'⟩ := lowerNode_place hnode hkind h
  have houtlines := Composite.outlines_of_ok houtline
  obtain ⟨hgrows, hreplaces⟩ := (o.place_ends houtlines.1.nextNode_le).of_ok hplace
  rw [hs']
  exact ⟨o, t, houtline, houtlines, houtlines.1.grows.trans hgrows, hreplaces⟩

/-- A composite can be replaced if and only if it has an outline whose chain is in order. -/
theorem Edit.lowerNode_succeeds_iff (hwf : s.graph.WellFormed) (hflows : s.graph.Flows)
    (hnode : s.graph.node? id = some node) (hkind : node.kind = .composite op) :
    (∃ result s', lowerNode id options s = .ok result s') ↔
      ∃ o t, op.outline options ⟨s.graph.eraseNode id, s.events⟩ = .ok o t ∧
        t.graph.Coherent o.chain := by
  constructor
  · rintro ⟨result, s', hrun⟩
    obtain ⟨o, t, houtline, houtlines, _, emitted, hemits, _⟩ := lowerNode_ok hnode hkind hrun
    have hwf' := houtlines.1.wellFormed (hwf.eraseNode id)
    exact ⟨o, t, houtline, ((Graph.emits_iff hwf').mp ⟨_, emitted, hemits⟩).1⟩
  · rintro ⟨o, t, houtline, hcoherent⟩
    have houtlines := Composite.outlines_of_ok houtline
    have hwf' := houtlines.1.wellFormed (hwf.eraseNode id)
    obtain ⟨ids, emitted, hemits⟩ :=
      (Graph.emits_iff hwf').mpr ⟨hcoherent, houtlines.unclaimed hwf hnode hkind⟩
    have hthreaded := (houtlines.2 t.graph (List.prefix_refl _)).threaded
    obtain ⟨result, s', hplace⟩ :=
      Outline.place_run t.events hwf hflows hnode hkind houtlines.1 hthreaded hemits
    have hlower : op.lower (s.graph.detachment id node) options ⟨s.graph.eraseNode id, s.events⟩ =
        .ok result s' := by
      rw [op.lower_eq, run_bind_ok houtline]
      exact hplace
    obtain ⟨events, hrun⟩ := lower_of_ok hlower
    rw [lowerNode_composite hnode hkind]
    exact ⟨result, _, hrun⟩

end Replacing

end GraphLowering
