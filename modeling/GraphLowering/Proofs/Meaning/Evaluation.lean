import GraphLowering.Proofs.Acyclicity

/-!
# What a graph computes

An interpretation gives a meaning to constants, primitives and composites. The nodes of a graph are
then evaluated in an order along the edges, each from the values of the tensors it reads.

The result does not depend on how it was found. It solves the equations of the graph: what a node
produces is what it computes from the final values (`Interpretation.evaluate_solves`). And there is
one solution only for the values that come from outside (`Interpretation.Solves.unique`).
-/

namespace GraphLowering

universe u

/-- A meaning of what a graph consists of: a value for a constant, and functions of the operands for
the operations. -/
structure Interpretation (V : Type u) where
  constant : Tensor → V
  primitive : Primitive → List V → V
  composite : Composite → List V → V

/-- No node computes the tensor: it is a model input, or nothing produces it. -/
def Graph.Outer (g : Graph) (t : TensorId) : Prop :=
  ∀ n node, g.node? n = some node → t ∈ node.kind.outputs → node.kind = .input t

theorem Graph.exists_maker {g : Graph} {t : TensorId} (h : ¬ g.Outer t) :
    ∃ n node, g.node? n = some node ∧ t ∈ node.kind.outputs := by
  by_contra hnone
  exact h fun n node hnode ht => absurd ⟨n, node, hnode, ht⟩ hnone

namespace Interpretation

variable {V : Type u}

/-- The value of what a node produces, unless that comes from outside. -/
def value? (I : Interpretation V) (g : Graph) (values : TensorId → V) : NodeKind → Option V
  | .input _ | .output _ => none
  | .constant t => (g.tensor? t).map I.constant
  | .operator op => some (I.primitive op.kind (op.inputs.map values))
  | .composite op => some (I.composite op (op.inputs.map values))

def evaluateNode (I : Interpretation V) (g : Graph) (values : TensorId → V) (n : NodeId) :
    TensorId → V :=
  match g.node? n with
  | none => values
  | some node =>
    fun t => if t ∈ node.kind.outputs then (I.value? g values node.kind).getD (values t) else values t

def evaluate (I : Interpretation V) (g : Graph) (order : List NodeId) (values : TensorId → V) :
    TensorId → V :=
  order.foldl (I.evaluateNode g) values

/-- What a node produces is what it computes from what it reads. -/
def Solves (I : Interpretation V) (g : Graph) (values : TensorId → V) : Prop :=
  ∀ n node x, g.node? n = some node → I.value? g values node.kind = some x →
    ∀ t ∈ node.kind.outputs, values t = x

variable {I : Interpretation V} {g : Graph} {values values' : TensorId → V}
  {n : NodeId} {node : Node} {t : TensorId}
  {order : List NodeId}

/-! ## Evaluation -/

theorem value?_congr {kind : NodeKind} (h : ∀ t ∈ kind.inputs, values t = values' t) :
    I.value? g values kind = I.value? g values' kind := by
  cases kind with
  | input | constant | output => rfl
  | operator op =>
    exact congrArg (fun operands => some (I.primitive op.kind operands)) (List.map_congr_left h)
  | composite op =>
    exact congrArg (fun operands => some (I.composite op operands)) (List.map_congr_left h)

theorem evaluateNode_of_outside
    (h : ∀ node, g.node? n = some node → t ∈ node.kind.outputs → node.kind = .input t) :
    I.evaluateNode g values n t = values t := by
  unfold evaluateNode
  cases hnode : g.node? n with
  | none => rfl
  | some node =>
    show (if t ∈ node.kind.outputs then _ else _) = _
    split
    · next hmem =>
      rw [h node hnode hmem]
      rfl
    · rfl

theorem evaluateNode_of_mem {x : V} (hnode : g.node? n = some node) (ht : t ∈ node.kind.outputs)
    (hx : I.value? g values node.kind = some x) : I.evaluateNode g values n t = x := by
  simp [evaluateNode, hnode, ht, hx]

theorem evaluate_of_outside
    (h : ∀ n ∈ order, ∀ node, g.node? n = some node → t ∈ node.kind.outputs → node.kind = .input t) :
    I.evaluate g order values t = values t := by
  unfold evaluate
  induction order generalizing values with
  | nil => rfl
  | cons n rest ih =>
    rw [List.forall_mem_cons] at h
    rw [List.foldl_cons, ih h.2]
    exact evaluateNode_of_outside h.1

/-- A node that comes after those that feed it reads what they produce, and no node after it changes
that. -/
theorem evaluate_solves (hexact : g.Exact) (hordered : g.Ordered order) :
    I.Solves g (I.evaluate g order values) := by
  intro n node x hnode hx t ht
  obtain ⟨before, after, rfl⟩ := List.append_of_mem ((hordered.mem n).mpr (Graph.isLive_of_node? hnode))
  have hdisjoint := List.disjoint_of_nodup_append hordered.nodup
  have hwf := hexact.wellFormed
  have hinputs : ∀ u ∈ node.kind.inputs, I.evaluate g (before ++ n :: after) values u =
      I.evaluate g before values u := by
    intro u hu
    rw [evaluate, List.foldl_append]
    refine evaluate_of_outside fun m hm maker hmaker hmade => ?_
    have hfeeds := hexact.feeds (hwf.producer?_iff.mpr ⟨maker, hmaker, hmade⟩) ⟨node, hnode, hu⟩
    exact absurd hm (hdisjoint (hordered.forward before n after rfl m hfeeds))
  rw [value?_congr hinputs] at hx
  rw [evaluate, List.foldl_append, List.foldl_cons, ← evaluateNode_of_mem hnode ht hx]
  refine evaluate_of_outside fun m hm maker hmaker hmade => ?_
  obtain rfl := hwf.eq_of_produces hnode ht hmaker hmade
  exact absurd hm (List.nodup_cons.mp (List.nodup_append.mp hordered.nodup).2.1).1

theorem evaluate_outer (h : g.Outer t) : I.evaluate g order values t = values t :=
  evaluate_of_outside fun n _ => h n

/-! ## Solutions -/

theorem exists_value (I : Interpretation V) (values : TensorId → V) (hwf : g.WellFormed)
    (hnode : g.node? n = some node) (ht : t ∈ node.kind.outputs) (hinput : node.kind ≠ .input t) :
    ∃ x, I.value? g values node.kind = some x := by
  cases hkind : node.kind with
  | input u =>
    rw [hkind] at ht hinput
    exact absurd (congrArg NodeKind.input (List.mem_singleton.mp ht).symm) hinput
  | constant u =>
    obtain ⟨x, hx⟩ :=
      Option.isSome_iff_exists.mp (hwf.registered n node hnode u (by simp [hkind, NodeKind.outputs]))
    exact ⟨I.constant x, by simp [value?, hx]⟩
  | output u =>
    rw [hkind] at ht
    cases ht
  | operator op => exact ⟨_, rfl⟩
  | composite op => exact ⟨_, rfl⟩

theorem Solves.eq_of_mem (hexact : g.Exact) (hordered : g.Ordered order) (h : I.Solves g values)
    (h' : I.Solves g values')
    (houter : ∀ t, t.index < g.tensors.length → g.Outer t → values t = values' t)
    {left right : List NodeId} (horder : order = left ++ right) (hn : n ∈ left)
    (hnode : g.node? n = some node) (ht : t ∈ node.kind.outputs) :
    values t = values' t := by
  have hwf := hexact.wellFormed
  induction left using List.reverseRecOn generalizing right n node t with
  | nil => cases hn
  | append_singleton left last ih =>
    rw [List.append_assoc] at horder
    rcases List.mem_append.mp hn with hn | hn
    · exact ih horder hn hnode ht
    · cases List.mem_singleton.mp hn
      by_cases hinput : node.kind = .input t
      · refine houter t (hwf.tensor_lt hnode (List.mem_append_right _ ht))
          fun m maker hmaker hmade => ?_
        obtain rfl := hwf.eq_of_produces hnode ht hmaker hmade
        cases hnode.symm.trans hmaker
        exact hinput
      · have hinputs : ∀ u ∈ node.kind.inputs, values u = values' u := by
          intro u hu
          by_cases hu' : g.Outer u
          · exact houter u (hwf.tensor_lt hnode (List.mem_append_left _ hu)) hu'
          · obtain ⟨m, maker, hmaker, hmade⟩ := Graph.exists_maker hu'
            have hfeeds := hexact.feeds (hwf.producer?_iff.mpr ⟨maker, hmaker, hmade⟩) ⟨node, hnode, hu⟩
            exact ih horder (hordered.forward left last right horder m hfeeds) hmaker hmade
        obtain ⟨x, hx⟩ := I.exists_value values hwf hnode ht hinput
        have hx' : I.value? g values' node.kind = some x := (value?_congr hinputs).symm.trans hx
        rw [h last node x hnode hx t ht, h' last node x hnode hx' t ht]

theorem Solves.unique (hexact : g.Exact) (hordered : g.Ordered order) (h : I.Solves g values)
    (h' : I.Solves g values')
    (houter : ∀ t, t.index < g.tensors.length → g.Outer t → values t = values' t)
    (ht : t.index < g.tensors.length) :
    values t = values' t := by
  by_cases ht' : g.Outer t
  · exact houter t ht ht'
  · obtain ⟨n, node, hnode, hmade⟩ := Graph.exists_maker ht'
    exact h.eq_of_mem hexact hordered h' houter (List.append_nil order).symm
      ((hordered.mem n).mpr (Graph.isLive_of_node? hnode)) hnode hmade

end Interpretation

end GraphLowering
