import GraphLowering.Proofs.Ends
import GraphLowering.Proofs.WellFormed

/-!
# What can be added to a graph

Whatever is put into a graph, by a caller or by a lowering, is put in by four elementary additions:
a tensor, a node, a constant node for a tensor that is read, an edge. `Graph.Added` says once under
which conditions each of them happens, and `Graph.Grows` is any number of them. Additions keep the
invariant, and they leave alone what was there: tensors and nodes keep their numbers, producers stay
producers, edges stay.
-/

namespace GraphLowering

namespace Graph

/-- One elementary addition. An edge is added only if it is `allowed` in the graph as it is then. -/
inductive Added (allowed : Graph → Edge → Prop) : Graph → Graph → Prop
  | tensor {g : Graph} {t : Tensor} (fresh : g.tensorNamed? t.name = none) :
    Added allowed g (g.pushTensor t)
  | node {g : Graph} {kind : NodeKind} {lowered : Bool} (accepted : g.insertError? kind lowered = none)
      (contract : ∀ op, kind = .operator op → op.check g = .ok ()) :
      Added allowed g (g.pushNode (g.nameFor kind) kind lowered)
  | constant {g : Graph} {id : TensorId} {t : Tensor} (known : g.tensor? id = some t)
      (const : t.isConstant)
      (free : g.producer? id = none) :
      Added allowed g (g.pushNode (g.nameFor (.constant id)) (.constant id) false)
  | edge {g : Graph} {e : Edge} (source : g.isLive e.source)
      (target : g.isLive e.target) (permitted : allowed g e) :
      Added allowed g (g.addEdge e)

abbrev Grows (allowed : Graph → Edge → Prop) : Graph → Graph → Prop :=
  Relation.ReflTransGen (Added allowed)

abbrev Registers : Graph → Graph → Prop :=
  Relation.ReflTransGen fun g g' => ∃ t : Tensor, g.tensorNamed? t.name = none ∧ g' = g.pushTensor t

/-! ## When a node is accepted -/

theorem producer?_of_claimError? {g : Graph} {lowered : Bool} {t : TensorId}
    (h : g.claimError? lowered t = none) :
    g.producer? t = none := by
  rw [producer?_eq_none]
  intro holder hholder hlive
  simp [claimError?, hholder, hlive] at h

theorem insertError?_eq_none {g : Graph} {kind : NodeKind} {lowered : Bool} :
    g.insertError? kind lowered = none ↔
      (∀ t ∈ kind.inputs ++ kind.outputs, (g.tensor? t).isSome) ∧
        ∀ t ∈ kind.outputs, g.claimError? lowered t = none := by
  unfold insertError?
  split
  · next t hfind =>
    have hmem := List.mem_of_find?_eq_some hfind
    have hnone := List.find?_some hfind
    constructor
    · intro h
      cases h
    · rintro ⟨hregistered, _⟩
      have := hregistered t hmem
      rw [Option.isSome_iff_ne_none] at this
      exact absurd (Option.isNone_iff_eq_none.mp hnone) this
  · next hfind =>
    rw [List.findSome?_eq_none_iff]
    constructor
    · intro hclaims
      refine ⟨fun t ht => ?_, hclaims⟩
      have := List.find?_eq_none.mp hfind t ht
      simpa [Option.isSome_iff_ne_none] using this
    · exact fun h => h.2

variable {allowed : Graph → Edge → Prop} {g g' : Graph}

theorem Registers.grows (h : Registers g g') : Grows allowed g g' := by
  induction h with
  | refl => exact .refl
  | tail _ hstep ih =>
    obtain ⟨t, hfresh, rfl⟩ := hstep
    exact ih.tail (.tensor hfresh)

/-! ## What an addition leaves alone -/

theorem tensor?_of_extend (h : g.tensors <+: g'.tensors) {id : TensorId} {t : Tensor}
    (ht : g.tensor? id = some t) :
    g'.tensor? id = some t := by
  obtain ⟨rest, hrest⟩ := h
  unfold Graph.tensor?
  rw [← hrest, List.getElem?_append_left (tensor?_lt ht)]
  exact ht

namespace Added

theorem tensors_extend (h : Added allowed g g') : g.tensors <+: g'.tensors := by
  cases h with
  | tensor _ => exact List.prefix_append _ _
  | node _ _ => exact List.prefix_rfl
  | constant _ _ _ => exact List.prefix_rfl
  | edge _ _ _ => simp only [addEdge_tensors, List.prefix_rfl]

theorem nextNode_le (h : Added allowed g g') : g.nextNode ≤ g'.nextNode := by
  cases h with
  | tensor _ => exact Nat.le_refl _
  | node _ _ => exact Nat.le_succ _
  | constant _ _ _ => exact Nat.le_succ _
  | edge _ _ _ => simp only [addEdge_nextNode, Nat.le_refl]

theorem node?_of_lt (h : Added allowed g g') {id : NodeId} (hid : id.index < g.nextNode) :
    g'.node? id = g.node? id := by
  cases h with
  | tensor _ => rfl
  | node _ _ => exact node?_pushNode_of_lt hid _ _ _
  | constant _ _ _ => exact node?_pushNode_of_lt hid _ _ _
  | edge _ _ _ => exact node?_addEdge _ _ _

theorem boundary (h : Added allowed g g') : g'.inputs = g.inputs ∧ g'.outputs = g.outputs := by
  cases h with
  | tensor _ => exact ⟨rfl, rfl⟩
  | node _ _ => exact ⟨rfl, rfl⟩
  | constant _ _ _ => exact ⟨rfl, rfl⟩
  | edge _ _ _ => exact ⟨addEdge_inputs _ _, addEdge_outputs _ _⟩

theorem edges_extend (h : Added allowed g g') : g.edges <+: g'.edges := by
  cases h with
  | tensor _ => exact List.prefix_rfl
  | node _ _ => exact List.prefix_rfl
  | constant _ _ _ => exact List.prefix_rfl
  | edge _ _ _ => exact edges_extend_addEdge _ _

/-- A record of a producer changes only for a tensor that no node of the graph produces, and then it
names a new node. -/
theorem get?_producers (h : Added allowed g g') (t : TensorId) :
    g'.producers.get? t.index = g.producers.get? t.index ∨
      g.producer? t = none ∧ g'.producers.get? t.index = some ⟨g.nextNode⟩ := by
  cases h with
  | tensor _ => exact .inl rfl
  | @node kind lowered haccepted _ =>
    rw [get?_producers_pushNode]
    by_cases ht : t ∈ kind.outputs
    · rw [if_pos ht]
      exact .inr ⟨producer?_of_claimError? ((insertError?_eq_none.mp haccepted).2 t ht), rfl⟩
    · rw [if_neg ht]
      exact .inl rfl
  | @constant id tensor _ _ hfree =>
    rw [get?_producers_pushNode]
    by_cases ht : t ∈ (NodeKind.constant id).outputs
    · rw [if_pos ht]
      obtain rfl : t = id := List.mem_singleton.mp ht
      exact .inr ⟨hfree, rfl⟩
    · rw [if_neg ht]
      exact .inl rfl
  | edge _ _ _ =>
    rw [addEdge_producers]
    exact .inl rfl

theorem wellFormed (h : Added allowed g g') (hwf : g.WellFormed) : g'.WellFormed := by
  cases h with
  | tensor hfresh => exact hwf.pushTensor hfresh
  | node haccepted hcontract =>
    obtain ⟨hregistered, hclaims⟩ := insertError?_eq_none.mp haccepted
    exact hwf.pushNode hregistered hcontract fun t ht => producer?_of_claimError? (hclaims t ht)
  | constant hknown _ hfree =>
    refine hwf.pushNode ?_ (fun op hop => nomatch hop) ?_
    · intro x hx
      obtain rfl : x = _ := List.mem_singleton.mp hx
      exact Option.isSome_iff_exists.mpr ⟨_, hknown⟩
    · intro x hx
      obtain rfl : x = _ := List.mem_singleton.mp hx
      exact hfree
  | edge hsource htarget _ => exact hwf.addEdge hsource htarget

theorem producer? (h : Added allowed g g') (hwf : g.WellFormed) {t : TensorId} {id : NodeId}
    (ht : g.producer? t = some id) : g'.producer? t = some id := by
  obtain ⟨hholder, hlive⟩ := producer?_eq_some.mp ht
  refine producer?_eq_some.mpr ⟨?_, ?_⟩
  · rcases h.get?_producers t with heq | ⟨hnone, _⟩
    · rw [heq, hholder]
    · rw [ht] at hnone
      cases hnone
  · rw [isLive_eq_isSome, h.node?_of_lt (hwf.lt_of_live hlive)]
    exact hlive

theorem reads (h : Added allowed g g') (hwf : g.WellFormed) {id : NodeId} {t : TensorId}
    (ht : g.Reads id t) :
    g'.Reads id t := by
  obtain ⟨node, hnode, hmem⟩ := ht
  exact ⟨node, by rw [h.node?_of_lt (hwf.lt_of_live (isLive_of_node? hnode)), hnode], hmem⟩

theorem dataflow {kind : Edge → Prop} (h : Added allowed g g') (hwf : g.WellFormed)
    (hallowed : ∀ g e, allowed g e → kind e → g.Dataflow e)
    (hflow : ∀ e ∈ g.edges, kind e → g.Dataflow e) :
    ∀ e ∈ g'.edges, kind e → g'.Dataflow e := by
  have hkeep : ∀ e, g.Dataflow e → g'.Dataflow e := fun e he => ⟨h.producer? hwf he.1, h.reads hwf he.2⟩
  intro e he hkind
  cases h with
  | tensor _ => exact hkeep e (hflow e he hkind)
  | node _ _ => exact hkeep e (hflow e he hkind)
  | constant _ _ _ => exact hkeep e (hflow e he hkind)
  | edge _ _ hpermitted =>
    rcases mem_edges_addEdge.mp he with rfl | he
    · exact hkeep _ (hallowed _ _ hpermitted hkind)
    · exact hkeep e (hflow e he hkind)

end Added

/-! ## What any number of additions leave alone -/

namespace Grows

theorem weaken {allowed' : Graph → Edge → Prop} (h : Grows allowed g g')
    (hallowed : ∀ g e, allowed g e → allowed' g e) :
    Grows allowed' g g' := by
  refine Relation.ReflTransGen.mono (fun _ _ hstep => ?_) _ _ h
  cases hstep with
  | tensor hfresh => exact .tensor hfresh
  | node haccepted hcontract => exact .node haccepted hcontract
  | constant hknown hconst hfree => exact .constant hknown hconst hfree
  | edge hsource htarget hpermitted => exact .edge hsource htarget (hallowed _ _ hpermitted)

theorem wellFormed (h : Grows allowed g g') (hwf : g.WellFormed) : g'.WellFormed := by
  induction h with
  | refl => exact hwf
  | tail _ hstep ih => exact hstep.wellFormed ih

theorem nextNode_le (h : Grows allowed g g') : g.nextNode ≤ g'.nextNode := by
  induction h with
  | refl => exact Nat.le_refl _
  | tail _ hstep ih => exact Nat.le_trans ih hstep.nextNode_le

theorem tensors_extend (h : Grows allowed g g') : g.tensors <+: g'.tensors := by
  induction h with
  | refl => exact List.prefix_rfl
  | tail _ hstep ih => exact ih.trans hstep.tensors_extend

theorem length_le (h : Grows allowed g g') : g.tensors.length ≤ g'.tensors.length :=
  h.tensors_extend.length_le

theorem tensor? (h : Grows allowed g g') {id : TensorId} {t : Tensor} (ht : g.tensor? id = some t) :
    g'.tensor? id = some t :=
  tensor?_of_extend h.tensors_extend ht

theorem node?_of_lt (h : Grows allowed g g') {id : NodeId} (hid : id.index < g.nextNode) :
    g'.node? id = g.node? id := by
  induction h with
  | refl => rfl
  | tail hgrown hstep ih => rw [hstep.node?_of_lt (Nat.lt_of_lt_of_le hid (nextNode_le hgrown)), ih]

theorem boundary (h : Grows allowed g g') : g'.inputs = g.inputs ∧ g'.outputs = g.outputs := by
  induction h with
  | refl => exact ⟨rfl, rfl⟩
  | tail _ hstep ih => exact ⟨hstep.boundary.1.trans ih.1, hstep.boundary.2.trans ih.2⟩

theorem edges_extend (h : Grows allowed g g') : g.edges <+: g'.edges := by
  induction h with
  | refl => exact List.prefix_rfl
  | tail _ hstep ih => exact ih.trans hstep.edges_extend

theorem edges_subset (h : Grows allowed g g') {e : Edge} (he : e ∈ g.edges) : e ∈ g'.edges :=
  h.edges_extend.subset he

theorem reads (h : Grows allowed g g') (hwf : g.WellFormed) {id : NodeId} {t : TensorId}
    (ht : g.Reads id t) :
    g'.Reads id t := by
  induction h with
  | refl => exact ht
  | tail hgrown hstep ih => exact hstep.reads (wellFormed hgrown hwf) ih

theorem producer? (h : Grows allowed g g') (hwf : g.WellFormed) {t : TensorId} {id : NodeId}
    (ht : g.producer? t = some id) : g'.producer? t = some id := by
  induction h with
  | refl => exact ht
  | tail hgrown hstep ih => exact hstep.producer? (wellFormed hgrown hwf) ih

theorem produced (h : Grows allowed g g') (hwf : g.WellFormed) {t : TensorId}
    (ht : (g.producer? t).isSome) :
    (g'.producer? t).isSome := by
  obtain ⟨id, hid⟩ := Option.isSome_iff_exists.mp ht
  rw [h.producer? hwf hid]
  rfl

theorem get?_producers (h : Grows allowed g g') (hwf : g.WellFormed) (t : TensorId) :
    g'.producers.get? t.index = g.producers.get? t.index ∨
      g.producer? t = none ∧ ∃ n : NodeId, g'.producers.get? t.index = some n ∧
        g.nextNode ≤ n.index := by
  induction h with
  | refl => exact .inl rfl
  | @tail g₁ g₂ hgrown hstep ih =>
    rcases hstep.get?_producers t with hsame | ⟨hfree, hclaim⟩
    · rwa [hsame]
    · refine .inr ⟨?_, ⟨g₁.nextNode⟩, hclaim, nextNode_le hgrown⟩
      cases hproducer : g.producer? t with
      | none => rfl
      | some id =>
        have hstill := producer? hgrown hwf hproducer
        rw [hfree] at hstill
        cases hstill

theorem dataflow_of_kind (h : Grows allowed g g') (kind : Edge → Prop) (hwf : g.WellFormed)
    (hallowed : ∀ g e, allowed g e → kind e → g.Dataflow e)
    (hflow : ∀ e ∈ g.edges, kind e → g.Dataflow e) :
    ∀ e ∈ g'.edges, kind e → g'.Dataflow e := by
  induction h with
  | refl => exact hflow
  | tail hgrown hstep ih => exact hstep.dataflow (wellFormed hgrown hwf) hallowed ih

theorem dataflow (h : Grows allowed g g') (hwf : g.WellFormed)
    (hallowed : ∀ g e, allowed g e → g.Dataflow e) (hflow : ∀ e ∈ g.edges, g.Dataflow e) :
    ∀ e ∈ g'.edges, g'.Dataflow e := fun e he =>
  h.dataflow_of_kind (fun _ => True) hwf (fun g e hpermitted _ => hallowed g e hpermitted)
    (fun e he _ => hflow e he) e he trivial

end Grows

theorem Registers.extend (h : Registers g g') : g.tensors <+: g'.tensors :=
  (h.grows : Grows (fun _ _ => False) g g').tensors_extend

theorem Registers.wellFormed (h : Registers g g') (hwf : g.WellFormed) : g'.WellFormed :=
  (h.grows : Grows (fun _ _ => False) g g').wellFormed hwf

theorem Registers.nextNode_le (h : Registers g g') : g.nextNode ≤ g'.nextNode :=
  (h.grows : Grows (fun _ _ => False) g g').nextNode_le

end Graph

end GraphLowering
