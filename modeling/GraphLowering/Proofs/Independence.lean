import GraphLowering.Proofs.RelocatedDrafts
import GraphLowering.Proofs.Rewiring

/-!
# A lowering does not depend on others

A composite that is replaced after others finds more tensors than it would find alone, and their
names are taken. That makes no difference but for the numbers of its own tensors, unless it needs
one of the names (`Composite.outline_relocates`). So a composite that can be replaced after others
can be replaced before them (`Edit.lowerNode_before`), and one that can be replaced before others
can be replaced after them if they share no name (`Edit.lowerNode_after`).
-/

namespace GraphLowering

/-! ## Chains with moved tensors -/

section Moved

variable {g g' : Graph} {f : TensorId → TensorId}

theorem Operator.check_rename {op : Operator} (htensors : ∀ t, g'.tensor? (f t) = g.tensor? t)
    (hregistered : ∀ t ∈ op.inputs ++ op.outputs, (g.tensor? t).isSome) :
    (op.rename f).check g' = op.check g := by
  have htensor : ∀ t ∈ op.inputs ++ op.outputs, g'.tensor (f t) = g.tensor t := by
    intro t ht
    obtain ⟨x, hx⟩ := Option.isSome_iff_exists.mp (hregistered t ht)
    rw [Graph.tensor_eq_ok.mpr hx, Graph.tensor_eq_ok.mpr ((htensors t).trans hx)]
  have hcounts : (op.rename f).checkCounts = op.checkCounts := by
    simp [checkCounts, rename]
  have hslot : ∀ slot, (op.rename f).checkInt32Slot g' slot = op.checkInt32Slot g slot := by
    intro slot
    unfold checkInt32Slot
    cases hid : op.inputs[slot]? with
    | none => simp [rename, hid]
    | some id => simp [rename, hid, htensor id (List.mem_append_left _ (List.mem_of_getElem? hid))]
  have hoperand : ∀ slot, (op.rename f).operand g' slot = op.operand g slot := by
    intro slot
    unfold operand
    cases hid : op.inputs[slot]? with
    | none => simp [rename, hid]
    | some id => simp [rename, hid, htensor id (List.mem_append_left _ (List.mem_of_getElem? hid))]
  have hresult : (op.rename f).result g' = op.result g := by
    unfold result
    cases hid : op.outputs.head? with
    | none => simp [rename, hid]
    | some id => simp [rename, hid, htensor id (List.mem_append_right _ (List.mem_of_mem_head? hid))]
  unfold check checkTypes
  rw [hcounts, funext hslot, hresult]
  simp only [hoperand]
  rfl

theorem Graph.coherent_rename (htensors : ∀ t, g'.tensor? (f t) = g.tensor? t)
    (hf : Function.Injective f) {chain : List Operator} :
    g'.Coherent (chain.map (Operator.rename f)) ↔ g.Coherent chain := by
  have hregistered : ∀ op : Operator,
      (∀ t ∈ (op.rename f).inputs ++ (op.rename f).outputs, (g'.tensor? t).isSome) ↔
      ∀ t ∈ op.inputs ++ op.outputs, (g.tensor? t).isSome := by
    intro op
    simp [Operator.rename, ← List.map_append, htensors]
  have hapart : ∀ op later : Operator, (∀ t ∈ (later.rename f).outputs, t ∉ (op.rename f).outputs ∧
      ¬ (t ∈ (op.rename f).inputs ∧ (g'.tensor? t).any (·.isConstant))) ↔
      ∀ t ∈ later.outputs, t ∉ op.outputs ∧ ¬ (t ∈ op.inputs ∧ (g.tensor? t).any (·.isConstant)) := by
    intro op later
    simp only [Operator.rename, List.forall_mem_map, List.mem_map_of_injective hf, htensors]
  constructor
  · rintro ⟨hcontract, hknown, hpairwise⟩
    simp only [List.forall_mem_map, hregistered] at hcontract hknown
    simp only [List.pairwise_map, hapart] at hpairwise
    refine ⟨fun op hop => ?_, hknown, hpairwise⟩
    rw [← Operator.check_rename htensors (hknown op hop)]
    exact hcontract op hop
  · rintro ⟨hcontract, hknown, hpairwise⟩
    constructor
    · simp only [List.forall_mem_map]
      intro op hop
      rw [Operator.check_rename htensors (hknown op hop)]
      exact hcontract op hop
    · simpa only [List.forall_mem_map, hregistered] using hknown
    · simpa only [List.pairwise_map, hapart] using hpairwise

end Moved

/-! ## Before and after others -/

namespace Graph

theorem tensors_eq {g g' : Graph} (h : ∀ t, g'.tensor? t = g.tensor? t) : g'.tensors = g.tensors :=
  List.ext_getElem? fun i => h ⟨i⟩

/-- The chain that has taken the place of a composite, and the tensors that came with it. -/
structure LoweredBy (g : Graph) (options : Options) (id : NodeId)
    (op : Composite) (events : List Event) (o : Outline)
    (added : List Tensor) (g' : Graph) : Prop where
  outline : ∃ t, op.outline options ⟨g.eraseNode id, events⟩ = .ok o t ∧
    t.graph.tensors = g'.tensors ∧ t.graph.Coherent o.chain
  tensors : g'.tensors = g.tensors ++ added
  rewired : g.Rewired [⟨id, op.output, o.chain⟩] g'

namespace LoweredBy

variable {g g' : Graph} {options : Options} {id n : NodeId} {x : Node}
  {op : Composite} {events : List Event} {o : Outline}
  {added : List Tensor} {t : TensorId}

theorem drafts (h : g.LoweredBy options id op events o added g') :
    op.Drafts g' g.tensors.length o.chain := by
  obtain ⟨drafted, houtline, htensors, _⟩ := h.outline
  exact (Composite.outlines_of_ok houtline).2 g' (htensors ▸ List.prefix_refl _)

theorem node?_kept (h : g.LoweredBy options id op events o added g') (hwf : g.WellFormed) (hne : n ≠ id)
    (hnode : g.node? n = some x) : g'.node? n = some x := by
  rw [h.rewired.old n (hwf.stored n x hnode).2, if_neg (by simpa using hne)]
  exact hnode

theorem node?_old (h : g.LoweredBy options id op events o added g') (hlt : n.index < g.nextNode)
    (hnode : g'.node? n = some x) : g.node? n = some x := by
  rw [h.rewired.old n hlt] at hnode
  split at hnode
  · cases hnode
  · exact hnode

theorem tensor?_old (h : g.LoweredBy options id op events o added g')
    (ht : t.index < g.tensors.length) :
    g'.tensor? t = g.tensor? t :=
  tensor?_of_extends h.rewired.tensors ht

end LoweredBy

end Graph

namespace Edit

open GraphLowering.Graph (LoweredBy)

variable {s s' : Session} {id : NodeId} {node : Node} {op : Composite} {options : Options}

theorem lowerNode_loweredBy (hwf : s.graph.WellFormed) (hflows : s.graph.Flows)
    (hnode : s.graph.node? id = some node) (hkind : node.kind = .composite op) {result : Lowered}
    (h : lowerNode id options s = .ok result s') :
    ∃ o added, s.graph.LoweredBy options id op s.events o added s'.graph := by
  obtain ⟨o, t, houtline, houtlines, hgrows, hreplaces⟩ := lowerNode_ok hnode hkind h
  obtain ⟨added, hadded⟩ : s.graph.tensors <+: s'.graph.tensors := hgrows.tensors_extend
  have hrewired := Graph.Rewired.single hwf hflows hnode hkind houtlines hgrows hreplaces
  obtain ⟨emitted, hemits, hlinked, _⟩ := hreplaces
  have htensors : t.graph.tensors = s'.graph.tensors :=
    (Graph.tensors_eq fun u => (hlinked.tensor? u).trans (hemits.tensor? u)).symm
  have hdrafted := houtlines.1.wellFormed (hwf.eraseNode id)
  have hcoherent := ((Graph.emits_iff hdrafted).mp ⟨_, emitted, hemits⟩).1
  exact ⟨o, added, ⟨t, houtline, htensors, hcoherent⟩, hadded.symm, hrewired⟩

end Edit

section Relocated

open Comparison (sessions)

variable {g g' : Graph} {id : NodeId} {node : Node} {op : Composite}
  {options : Options} {extra : List Tensor}

theorem Graph.mirrors_eraseNode (events events' : List Event) (hwf : g.WellFormed)
    (hwf' : g'.WellFormed) (htensors : g'.tensors = g.tensors ++ extra) :
    (sessions g.tensors extra).mirrors ⟨g.eraseNode id, events⟩ ⟨g'.eraseNode id, events'⟩ := by
  refine ⟨[], ?_, ?_, (hwf.eraseNode id).named, (hwf'.eraseNode id).named, fun _ hx => nomatch hx⟩
  · exact (List.append_nil _).symm
  · rw [List.append_nil]
    exact htensors

theorem Composite.outline_relocates_of_node (hwf : g.WellFormed) (hnode : g.node? id = some node)
    (hkind : node.kind = .composite op) :
    Relocates (sessions g.tensors extra) (op.outline options) (op.outline options)
      (Outline.rename (TensorId.move g.tensors extra)) := by
  exact op.outline_relocates options (fun _ => hwf.operand_lt hnode hkind) (hwf.output_lt hnode hkind)

/-- A chain is in order among more tensors if it is in order without them. -/
theorem Mirrored.coherent_iff {base new : List Tensor} {k k' : Graph}
    (h : Mirrored base extra k k' new) (o : Outline) :
    k'.Coherent (o.rename (TensorId.move base extra)).chain ↔ k.Coherent o.chain :=
  Graph.coherent_rename h.tensor? (TensorId.move_injective base extra)

end Relocated

namespace Edit

open GraphLowering.Graph (LoweredBy)

variable {s s₁ s₂ : Session} {a b : NodeId} {nodeA nodeB : Node}
  {opA opB : Composite} {options : Options}

/-- What is replaced after something else was can be replaced before it. -/
theorem lowerNode_before (hwf : s.graph.WellFormed) (hflows : s.graph.Flows)
    (hb : s.graph.node? b = some nodeB) (hkindB : nodeB.kind = .composite opB)
    (hwf₁ : s₁.graph.WellFormed) {extra : List Tensor}
    (htensors : s₁.graph.tensors = s.graph.tensors ++ extra) {o' : Outline} {added' : List Tensor}
    {g₂ : Graph} (hlowered : s₁.graph.LoweredBy options b opB s₁.events o' added' g₂) :
    ∃ o result s', lowerNode b options s = .ok result s' ∧
      s.graph.LoweredBy options b opB s.events o added' s'.graph ∧
      o' = o.rename (TensorId.move s.graph.tensors extra) ∧ ∀ x ∈ added', ¬ Taken extra x := by
  obtain ⟨⟨t', houtline', htensors', hcoherent'⟩, hadded', _⟩ := hlowered
  obtain ⟨o, t, houtline, rfl, added, hmirrored⟩ :=
    (Composite.outline_relocates_of_node hwf hb hkindB).of_relocated houtline'
      (Graph.mirrors_eraseNode s.events _ hwf hwf₁ htensors)
  obtain ⟨result, s', hrun⟩ :=
    (lowerNode_succeeds_iff hwf hflows hb hkindB).mpr
      ⟨o, t, houtline, (hmirrored.coherent_iff o).mp hcoherent'⟩
  obtain ⟨o₁, added₁, hlowered⟩ := lowerNode_loweredBy hwf hflows hb hkindB hrun
  obtain ⟨t₁, houtline₁, htensors₁, _⟩ := hlowered.outline
  rw [houtline] at houtline₁
  cases houtline₁
  have hsame : added₁ = added := by
    have h := hlowered.tensors
    rw [← htensors₁, hmirrored.tensors] at h
    exact (List.append_cancel_left h).symm
  have hsame' : added' = added := by
    have h := hmirrored.tensors'
    rw [htensors', hadded', htensors, List.append_assoc] at h
    exact List.append_cancel_left (List.append_cancel_left h)
  subst hsame hsame'
  exact ⟨o, result, s', hrun, hlowered, rfl, hmirrored.avoids⟩

/-- What is replaced before something else is can be replaced after it, if the names it needs are
still free. -/
theorem lowerNode_after (hwf : s.graph.WellFormed) (ha : s.graph.node? a = some nodeA)
    (hkindA : nodeA.kind = .composite opA) (hwf₁ : s₁.graph.WellFormed) (hflows₁ : s₁.graph.Flows)
    (ha₁ : s₁.graph.node? a = some nodeA) {extra : List Tensor}
    (htensors : s₁.graph.tensors = s.graph.tensors ++ extra) {o : Outline} {added : List Tensor}
    {g₂ : Graph} (hlowered : s.graph.LoweredBy options a opA s.events o added g₂)
    (hfree : ∀ x ∈ added, ¬ Taken extra x) :
    ∃ result s', lowerNode a options s₁ = .ok result s' ∧
      s₁.graph.LoweredBy options a opA s₁.events (o.rename (TensorId.move s.graph.tensors extra))
        added s'.graph := by
  obtain ⟨⟨t, houtline, htensorsT, hcoherent⟩, hadded, _⟩ := hlowered
  have havoids : (Comparison.sessions s.graph.tensors extra).avoids t := by
    intro x hx
    rw [htensorsT, hadded, List.drop_left] at hx
    exact hfree x hx
  obtain ⟨t', houtline', new, hmirrored⟩ := (Composite.outline_relocates_of_node hwf ha hkindA).of_ok
    houtline (Graph.mirrors_eraseNode s.events s₁.events hwf hwf₁ htensors) havoids
  obtain ⟨result, s', hrun⟩ :=
    (lowerNode_succeeds_iff hwf₁ hflows₁ ha₁ hkindA).mpr
      ⟨_, t', houtline', (hmirrored.coherent_iff o).mpr hcoherent⟩
  obtain ⟨o₁, added₁, hlowered⟩ := lowerNode_loweredBy hwf₁ hflows₁ ha₁ hkindA hrun
  obtain ⟨t₁, houtline₁, htensors₁, _⟩ := hlowered.outline
  rw [houtline'] at houtline₁
  cases houtline₁
  have hnew : new = added := by
    have h := hmirrored.tensors
    rw [htensorsT, hadded] at h
    exact (List.append_cancel_left h).symm
  have hsame : added₁ = added := by
    have h := hlowered.tensors
    rw [← htensors₁, hmirrored.tensors', htensors, List.append_assoc] at h
    rw [← hnew]
    exact (List.append_cancel_left (List.append_cancel_left h)).symm
  subst hsame
  exact ⟨result, s', hrun, hlowered⟩

end Edit

end GraphLowering
