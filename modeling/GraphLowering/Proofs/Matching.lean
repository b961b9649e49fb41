import GraphLowering.Proofs.RelocatedDrafts
import GraphLowering.Proofs.Rewiring
import Mathlib.Data.Set.Function

/-!
# Graphs that are the same but for their numbers

Two graphs match if there are a renaming of the tensors and one of the nodes that turn everything
the one holds into what the other one holds (`Graph.Matches`).

If the same composites of a graph were replaced by the same chains, but for the numbers of the
tensors, the results match (`Graph.Alike.matching`). Tensors are matched by position. A new node has
one result, and it is matched with the producer of that.
-/

namespace GraphLowering

/-! ## Renaming -/

def Composite.rename (f : TensorId → TensorId) : Composite → Composite
  | batchNorm n => .batchNorm
    { n with
      input := f n.input, weight := f n.weight, bias := f n.bias,
      mean := f n.mean, variance := f n.variance, output := f n.output }
  | convolution n => .convolution
    { n with input := f n.input, weight := f n.weight, bias := n.bias.map f, output := f n.output }
  | transposedConvolution n => .transposedConvolution
    { n with input := f n.input, weight := f n.weight, bias := n.bias.map f, output := f n.output }

theorem Operator.rename_eq_self {f : TensorId → TensorId} {op : Operator}
    (h : ∀ t ∈ op.inputs ++ op.outputs, f t = t) :
    op.rename f = op := by
  have hmap : ∀ ts : List TensorId, ts ⊆ op.inputs ++ op.outputs → ts.map f = ts := by
    intro ts hts
    rw [List.map_congr_left fun t ht => h t (hts ht), List.map_id']
  unfold rename
  rw [hmap op.inputs (List.subset_append_left _ _), hmap op.outputs (List.subset_append_right _ _)]

theorem Composite.rename_eq_self {f : TensorId → TensorId} {op : Composite}
    (hinputs : ∀ t ∈ op.inputs, f t = t) (houtput : f op.output = op.output) : op.rename f = op := by
  have hbias : ∀ bias : Option TensorId, bias.toList ⊆ op.inputs → bias.map f = bias := by
    intro bias hsubset
    cases bias with
    | none => rfl
    | some t => exact congrArg some (hinputs t (hsubset (by simp)))
  cases op with
  | batchNorm n =>
    simp only [inputs, List.forall_mem_cons] at hinputs
    simp_all [rename, output]
  | convolution n =>
    have hbias := hbias n.bias (by simp [inputs])
    simp only [inputs, List.forall_mem_cons] at hinputs
    simp_all [rename, output]
  | transposedConvolution n =>
    have hbias := hbias n.bias (by simp [inputs])
    simp only [inputs, List.forall_mem_cons] at hinputs
    simp_all [rename, output]

namespace NodeKind

def rename (f : TensorId → TensorId) : NodeKind → NodeKind
  | input t => .input (f t)
  | constant t => .constant (f t)
  | output t => .output (f t)
  | operator op => .operator (op.rename f)
  | composite op => .composite (op.rename f)

variable {f : TensorId → TensorId} {kind : NodeKind}

@[simp] theorem inputs_rename : (kind.rename f).inputs = kind.inputs.map f := by
  rcases kind with _ | _ | _ | _ | (n | n | n)
  all_goals simp [rename, inputs, Operator.rename, Composite.rename, Composite.inputs]
  all_goals cases n.bias <;> rfl

@[simp] theorem outputs_rename : (kind.rename f).outputs = kind.outputs.map f := by
  rcases kind with _ | _ | _ | _ | (n | n | n)
  all_goals rfl

@[simp] theorem isConstant_rename : (kind.rename f).isConstant = kind.isConstant := by
  cases kind <;> rfl

theorem rename_eq_self (h : ∀ t ∈ kind.inputs ++ kind.outputs, f t = t) : kind.rename f = kind := by
  cases kind with
  | input t | constant t | output t => exact congrArg _ (h t List.mem_cons_self)
  | operator op => exact congrArg _ (Operator.rename_eq_self h)
  | composite op =>
    refine congrArg _ (Composite.rename_eq_self (fun t ht => h t (List.mem_append_left _ ht)) (h _ ?_))
    exact List.mem_append_right _ (List.mem_singleton_self _)

end NodeKind

def Edge.rename (node : NodeId → NodeId) (tensor : TensorId → TensorId) (e : Edge) : Edge :=
  ⟨node e.source, node e.target, tensor e.tensor⟩

namespace Graph

/-- Two graphs are the same under renamings of the tensors and the nodes. -/
structure Matches (g g' : Graph) (tensor : TensorId → TensorId) (node : NodeId → NodeId) : Prop where
  tensors : Set.BijOn tensor {t | (g.tensor? t).isSome} {t | (g'.tensor? t).isSome}
  sameTensor : ∀ t, (g.tensor? t).isSome → g'.tensor? (tensor t) = g.tensor? t
  names : ∀ name, g'.tensorNamed? name = (g.tensorNamed? name).map tensor
  nodes : Set.BijOn node {n | g.isLive n} {n | g'.isLive n}
  sameNode : ∀ n x, g.node? n = some x →
    g'.node? (node n) = some ⟨node n, x.name, x.kind.rename tensor, x.lowered⟩
  edges : ∀ e', e' ∈ g'.edges ↔ ∃ e ∈ g.edges, e.rename node tensor = e'
  producers : ∀ t, (g.tensor? t).isSome → g'.producer? (tensor t) = (g.producer? t).map node
  inputs : g'.inputs = g.inputs.map tensor
  outputs : g'.outputs = g.outputs.map tensor

def Swap.rename (f : TensorId → TensorId) (r : Swap) : Swap :=
  ⟨r.id, r.output, r.chain.map (Operator.rename f)⟩

/-- Chains were put in the places of the same composites of a graph, but with the tensors in another
order. -/
structure Alike (g : Graph) (swaps swaps' : List Swap) (g₁ g₂ : Graph)
    (f f' : TensorId → TensorId) : Prop where
  rewired : g.Rewired swaps g₁
  rewired' : g.Rewired swaps' g₂
  forth : ∀ t, t.index < g₁.tensors.length → (f t).index < g₂.tensors.length ∧ f' (f t) = t
  back : ∀ t, t.index < g₂.tensors.length → (f' t).index < g₁.tensors.length ∧ f (f' t) = t
  sameTensor : ∀ t, t.index < g₁.tensors.length → g₂.tensor? (f t) = g₁.tensor? t
  fixed : ∀ t, t.index < g.tensors.length → f t = t
  composites : ∀ n, n ∈ swaps'.map (·.id) ↔ n ∈ swaps.map (·.id)
  chains : ∀ r ∈ swaps, r.rename f ∈ swaps'
  chains' : ∀ r ∈ swaps', r.rename f' ∈ swaps

/-- The node that corresponds to a node: itself if it was there, or else the producer of its first
result. -/
def counterpart (g g₁ g₂ : Graph) (f : TensorId → TensorId) (n : NodeId) : NodeId :=
  if n.index < g.nextNode then n
  else (((g₁.node? n).bind (·.kind.outputs.head?)).bind fun t => g₂.producer? (f t)).getD n

namespace Alike

variable {g g₁ g₂ : Graph} {swaps swaps' : List Swap} {f f' : TensorId → TensorId}
  {n : NodeId} {node : Node} {t : TensorId}

theorem symm (h : g.Alike swaps swaps' g₁ g₂ f f') : g.Alike swaps' swaps g₂ g₁ f' f where
  rewired := h.rewired'
  rewired' := h.rewired
  forth := h.back
  back := h.forth
  sameTensor t ht := by
    obtain ⟨hlt, heq⟩ := h.back t ht
    rw [← h.sameTensor _ hlt, heq]
  fixed t ht := by
    have hlt := Nat.lt_of_lt_of_le ht h.rewired.tensors.length_le
    have hback := (h.forth t hlt).2
    rw [h.fixed t ht] at hback
    exact hback
  composites n := (h.composites n).symm
  chains := h.chains'
  chains' := h.chains

/-! ### Old nodes -/

theorem node?_old (h : g.Alike swaps swaps' g₁ g₂ f f') (hn : n.index < g.nextNode) :
    g₂.node? n = g₁.node? n := by
  rw [h.rewired'.old n hn, h.rewired.old n hn]
  simp only [h.composites n]

theorem counterpart_old (hn : n.index < g.nextNode) : g.counterpart g₁ g₂ f n = n :=
  if_pos hn

theorem node?_before (h : g.Alike swaps swaps' g₁ g₂ f f') (hn : n.index < g.nextNode)
    (hnode : g₁.node? n = some node) :
    g.node? n = some node := by
  rw [h.rewired.old n hn] at hnode
  split at hnode
  · cases hnode
  · exact hnode

theorem rename_old (h : g.Alike swaps swaps' g₁ g₂ f f') (hwf : g.WellFormed)
    (hn : n.index < g.nextNode) (hnode : g₁.node? n = some node) : node.kind.rename f = node.kind :=
  NodeKind.rename_eq_self fun t ht => h.fixed t (hwf.tensor_lt (h.node?_before hn hnode) ht)

/-! ### New nodes -/

theorem eq_of_rename (h : g.Alike swaps swaps' g₁ g₂ f f') {u : TensorId}
    (ht : t.index < g₁.tensors.length) (hu : u.index < g₁.tensors.length) (heq : f t = f u) :
    t = u := by
  rw [← (h.forth t ht).2, heq, (h.forth u hu).2]

theorem placed (h : g.Alike swaps swaps' g₁ g₂ f f') {r : Swap} (hr : r ∈ swaps) {op : Operator}
    (hop : op ∈ r.chain) :
    ∃ m : NodeId, g.nextNode ≤ m.index ∧ g₂.HasOperator m (op.rename f) :=
  h.rewired'.placed _ (h.chains r hr) _ (List.mem_map_of_mem hop)

theorem reads_rename {r : Swap} (hread : Chain.Reads r.chain t) :
    Chain.Reads (r.rename f).chain (f t) := by
  obtain ⟨op, hop, ht⟩ := hread
  exact ⟨op.rename f, List.mem_map_of_mem hop, List.mem_map_of_mem ht⟩

/-- A constant that came with a chain has come in the other graph, too: nothing else can produce it
there. -/
theorem constant_node (h : g.Alike swaps swaps' g₁ g₂ f f') (hwf : g.WellFormed)
    (hn : g.nextNode ≤ n.index) (hnode : g₁.node? n = some node) (hkind : node.kind = .constant t)
    (hconst : (g₁.tensor? t).any (·.isConstant)) {r : Swap} (hr : r ∈ swaps)
    (hread : Chain.Reads r.chain t) :
    ∃ m node', g.nextNode ≤ m.index ∧ g₂.node? m = some node' ∧ node'.kind = .constant (f t) := by
  have hlt := h.rewired.read_lt hr hread
  have hproducer : g₁.producer? t = some n := by
    refine h.rewired.wellFormed.producer?_iff.mpr ⟨node, hnode, ?_⟩
    rw [hkind]
    exact List.mem_singleton_self t
  have hconst' : (g₂.tensor? (f t)).any (·.isConstant) := by
    rw [h.sameTensor t hlt]
    exact hconst
  obtain ⟨m, hm⟩ := Option.isSome_iff_exists.mp
    (h.rewired'.constants _ (h.chains r hr) (f t) (reads_rename hread) hconst')
  obtain ⟨node', hnode', hmade⟩ := h.rewired'.wellFormed.producer?_iff.mp hm
  by_cases hold : m.index < g.nextNode
  · exfalso
    rw [h.node?_old hold] at hnode'
    have hfixed :=
      h.symm.fixed (f t) (hwf.tensor_lt (h.node?_before hold hnode') (List.mem_append_right _ hmade))
    rw [(h.forth t hlt).2] at hfixed
    rw [← hfixed] at hmade
    rw [h.rewired.wellFormed.producer?_iff.mpr ⟨node', hnode', hmade⟩] at hproducer
    cases hproducer
    omega
  · obtain ⟨r', hr', ⟨op, hop, hkind'⟩ | ⟨u, hkind', _⟩⟩ :=
      h.rewired'.brought m node' (Nat.le_of_not_lt hold) hnode'
    · exfalso
      rw [hkind'] at hmade
      obtain ⟨m', _, hplaced⟩ := h.symm.placed hr' hop
      have ht : t ∈ (op.rename f').outputs := by
        rw [← (h.forth t hlt).2]
        exact List.mem_map_of_mem hmade
      rw [hplaced.producer? h.rewired.wellFormed ht] at hproducer
      cases hproducer
      obtain ⟨other, hother, hkind''⟩ := hasOperator_iff.mp hplaced
      rw [hnode] at hother
      cases hother
      rw [hkind] at hkind''
      cases hkind''
    · rw [hkind'] at hmade
      rw [← List.mem_singleton.mp hmade] at hkind'
      exact ⟨m, node', Nat.le_of_not_lt hold, hnode', hkind'⟩

theorem exists_node (h : g.Alike swaps swaps' g₁ g₂ f f') (hwf : g.WellFormed)
    (hn : g.nextNode ≤ n.index) (hnode : g₁.node? n = some node) :
    (∃ t, node.kind.outputs = [t]) ∧ ∃ m node', g.nextNode ≤ m.index ∧
      g₂.node? m = some node' ∧ node'.kind = node.kind.rename f := by
  obtain ⟨r, hr, ⟨op, hop, hkind⟩ | ⟨t, hkind, hconst, hread⟩⟩ := h.rewired.brought n node hn hnode
  · rw [hkind]
    refine ⟨List.length_eq_one_iff.mp (h.rewired.oneResult r hr op hop), ?_⟩
    obtain ⟨m, hm, hplaced⟩ := h.placed hr hop
    obtain ⟨node', hnode', hkind'⟩ := hasOperator_iff.mp hplaced
    exact ⟨m, node', hm, hnode', hkind'⟩
  · rw [hkind]
    exact ⟨⟨t, rfl⟩, h.constant_node hwf hn hnode hkind hconst hr hread⟩

theorem nameFor_rename (h : g.Alike swaps swaps' g₁ g₂ f f') (hnode : g₁.node? n = some node) :
    g₂.nameFor (node.kind.rename f) = g₁.nameFor node.kind := by
  unfold nameFor
  rw [NodeKind.inputs_rename, NodeKind.outputs_rename, ← List.map_append, List.head?_map]
  cases hhead : (node.kind.outputs ++ node.kind.inputs).head? with
  | none => rfl
  | some t =>
    have ht : t ∈ node.kind.inputs ++ node.kind.outputs := by
      have hmem := List.mem_of_mem_head? hhead
      simp only [List.mem_append] at hmem ⊢
      exact hmem.symm
    simp only [Option.map_some, Option.bind_some,
      h.sameTensor t (h.rewired.wellFormed.tensor_lt hnode ht)]

/-- The counterpart of a new node is a new node, with the same name and mark and the renamed kind. -/
theorem counterpart_new (h : g.Alike swaps swaps' g₁ g₂ f f') (hwf : g.WellFormed)
    (hn : g.nextNode ≤ n.index) (hnode : g₁.node? n = some node) :
    ∃ m, g.counterpart g₁ g₂ f n = m ∧ g.nextNode ≤ m.index ∧
      g₂.node? m = some ⟨m, node.name, node.kind.rename f, node.lowered⟩ := by
  obtain ⟨⟨t, hsingle⟩, m, node', hm, hnode', hkind⟩ := h.exists_node hwf hn hnode
  obtain ⟨hname, hlowered⟩ := h.rewired.labelled n node hn hnode
  obtain ⟨hname', hlowered'⟩ := h.rewired'.labelled m node' hm hnode'
  have hid := (h.rewired'.wellFormed.stored m node' hnode').1
  have hproducer : g₂.producer? (f t) = some m := by
    refine h.rewired'.wellFormed.producer?_iff.mpr ⟨node', hnode', ?_⟩
    rw [hkind, NodeKind.outputs_rename, hsingle]
    exact List.mem_singleton_self _
  refine ⟨m, ?_, hm, ?_⟩
  · unfold counterpart
    rw [if_neg (Nat.not_lt.mpr hn), hnode]
    simp [hsingle, hproducer]
  · rw [hnode']
    rw [hkind, h.nameFor_rename hnode, ← hname] at hname'
    rw [hkind, NodeKind.isConstant_rename, ← hlowered] at hlowered'
    obtain ⟨id, name, kind, lowered⟩ := node'
    simp only at hid hname' hkind hlowered'
    rw [hid, hname', hkind, hlowered']

/-! ### All nodes -/

theorem sameNode (h : g.Alike swaps swaps' g₁ g₂ f f') (hwf : g.WellFormed)
    (hnode : g₁.node? n = some node) :
    g₂.node? (g.counterpart g₁ g₂ f n) =
      some ⟨g.counterpart g₁ g₂ f n, node.name, node.kind.rename f, node.lowered⟩ := by
  by_cases hn : n.index < g.nextNode
  · rw [counterpart_old hn, h.node?_old hn, hnode, h.rename_old hwf hn hnode,
      ← (h.rewired.wellFormed.stored n node hnode).1]
  · obtain ⟨m, hm, _, hnode'⟩ := h.counterpart_new hwf (Nat.le_of_not_lt hn) hnode
    rw [hm, hnode']

theorem counterpart_counterpart (h : g.Alike swaps swaps' g₁ g₂ f f') (hwf : g.WellFormed)
    (hnode : g₁.node? n = some node) :
    g.counterpart g₂ g₁ f' (g.counterpart g₁ g₂ f n) = n := by
  by_cases hn : n.index < g.nextNode
  · rw [counterpart_old hn, counterpart_old hn]
  · have hn' := Nat.le_of_not_lt hn
    obtain ⟨m, hm, hnew, hnode'⟩ := h.counterpart_new hwf hn' hnode
    obtain ⟨⟨t, hsingle⟩, _⟩ := h.exists_node hwf hn' hnode
    have ht : t ∈ node.kind.outputs := by simp [hsingle]
    have hlt := h.rewired.wellFormed.tensor_lt hnode (List.mem_append_right _ ht)
    have hproducer : g₁.producer? t = some n := h.rewired.wellFormed.producer?_iff.mpr ⟨node, hnode, ht⟩
    rw [hm]
    unfold counterpart
    rw [if_neg (Nat.not_lt.mpr hnew), hnode']
    simp [hsingle, (h.forth t hlt).2, hproducer]

theorem producer?_of_some (h : g.Alike swaps swaps' g₁ g₂ f f') (hwf : g.WellFormed)
    (hproducer : g₁.producer? t = some n) :
    g₂.producer? (f t) = some (g.counterpart g₁ g₂ f n) := by
  obtain ⟨node, hnode, hmade⟩ := h.rewired.wellFormed.producer?_iff.mp hproducer
  refine h.rewired'.wellFormed.producer?_iff.mpr ⟨_, h.sameNode hwf hnode, ?_⟩
  rw [NodeKind.outputs_rename]
  exact List.mem_map_of_mem hmade

theorem producers (h : g.Alike swaps swaps' g₁ g₂ f f') (hwf : g.WellFormed)
    (ht : t.index < g₁.tensors.length) :
    g₂.producer? (f t) = (g₁.producer? t).map (g.counterpart g₁ g₂ f) := by
  cases hproducer : g₁.producer? t with
  | some n => exact h.producer?_of_some hwf hproducer
  | none =>
    cases hproducer' : g₂.producer? (f t) with
    | none => rfl
    | some m =>
      have hback := h.symm.producer?_of_some hwf hproducer'
      rw [(h.forth t ht).2, hproducer] at hback
      cases hback

/-! ### Edges -/

theorem fed (h : g.Alike swaps swaps' g₁ g₂ f f') (hwf : g.WellFormed) (hflows : g.Flows)
    (hfed : g₁.Fed n t) :
    g₂.Fed (g.counterpart g₁ g₂ f n) (f t) := by
  have hregistered : ∀ {u : TensorId} {m : NodeId}, g.producer? u = some m →
      u.index < g.tensors.length := by
    intro u m hproducer
    obtain ⟨maker, hmaker, hmade⟩ := hwf.producer?_iff.mp hproducer
    exact hwf.tensor_lt hmaker (List.mem_append_right _ hmade)
  rw [h.rewired'.fed]
  rcases (h.rewired.fed n t).mp hfed with ⟨hold, hkept, source, he⟩
    | ⟨hnew, r, hr, op, hop, hplaced, ht, houtput, hsome⟩
  · left
    rw [counterpart_old hold, h.fixed t (hregistered (hflows _ he).1)]
    exact ⟨hold, (h.composites n).not.mpr hkept, source, he⟩
  · right
    obtain ⟨node, hnode, hkind⟩ := hasOperator_iff.mp hplaced
    obtain ⟨m, hm, hnew', hnode'⟩ := h.counterpart_new hwf hnew hnode
    have hplaced' : g₂.HasOperator m (op.rename f) := by
      refine hasOperator_iff.mpr ⟨_, hnode', ?_⟩
      rw [hkind]
      rfl
    have hlt := hplaced.input_lt h.rewired.wellFormed ht
    have hout := hregistered ((h.rewired.replaced r hr r.output).mpr rfl)
    obtain ⟨source, hsource⟩ := Option.isSome_iff_exists.mp hsome
    rw [hm]
    refine ⟨hnew', r.rename f, h.chains r hr, op.rename f, List.mem_map_of_mem hop,
      hplaced', List.mem_map_of_mem ht, ?_, ?_⟩
    · intro heq
      have hft : f t = f r.output := by rw [heq, h.fixed r.output hout]; rfl
      have hsame := h.eq_of_rename hlt (Nat.lt_of_lt_of_le hout h.rewired.tensors.length_le) hft
      exact List.mem_map_of_mem (houtput hsame)
    · rw [h.producer?_of_some hwf hsource]
      rfl

theorem edge (h : g.Alike swaps swaps' g₁ g₂ f f') (hwf : g.WellFormed) (hflows : g.Flows)
    {e : Edge} (he : e ∈ g₁.edges) :
    e.rename (g.counterpart g₁ g₂ f) f ∈ g₂.edges := by
  obtain ⟨source, hsource⟩ := h.fed hwf hflows ⟨e.source, he⟩
  have hproducer := (h.rewired'.flows _ hsource).1
  rw [h.producer?_of_some hwf (h.rewired.flows _ he).1] at hproducer
  cases hproducer
  exact hsource

theorem mem_edges (h : g.Alike swaps swaps' g₁ g₂ f f') (hwf : g.WellFormed) (hflows : g.Flows)
    {e' : Edge} :
    e' ∈ g₂.edges ↔ ∃ e ∈ g₁.edges, e.rename (g.counterpart g₁ g₂ f) f = e' := by
  constructor
  · intro he'
    refine ⟨_, h.symm.edge hwf hflows he', ?_⟩
    obtain ⟨⟨maker, hmaker⟩, ⟨reader, hreader⟩⟩ :=
      And.imp isLive_iff.mp isLive_iff.mp (h.rewired'.flows e' he').live
    obtain ⟨other, hother, hmade⟩ := h.rewired'.wellFormed.producer?_iff.mp (h.rewired'.flows e' he').1
    have ht := h.rewired'.wellFormed.tensor_lt hother (List.mem_append_right _ hmade)
    unfold Edge.rename
    simp only [h.symm.counterpart_counterpart hwf hmaker,
      h.symm.counterpart_counterpart hwf hreader, (h.back _ ht).2]
  · rintro ⟨e, he, rfl⟩
    exact h.edge hwf hflows he

theorem isLive_counterpart (h : g.Alike swaps swaps' g₁ g₂ f f') (hwf : g.WellFormed)
    (hlive : g₁.isLive n) :
    g₂.isLive (g.counterpart g₁ g₂ f n) := by
  obtain ⟨node, hnode⟩ := isLive_iff.mp hlive
  exact isLive_of_node? (h.sameNode hwf hnode)

/-! ### The whole graphs -/

theorem isSome_tensor? {k : Graph} : (k.tensor? t).isSome ↔ t.index < k.tensors.length := by
  unfold Graph.tensor?
  simp

theorem names (h : g.Alike swaps swaps' g₁ g₂ f f') (name : String) :
    g₂.tensorNamed? name = (g₁.tensorNamed? name).map f := by
  cases hname : g₁.tensorNamed? name with
  | some t =>
    obtain ⟨x, hx, hxName⟩ := (h.rewired.wellFormed.indexed name t).mp hname
    refine (h.rewired'.wellFormed.indexed name (f t)).mpr ⟨x, ?_, hxName⟩
    rw [h.sameTensor t (tensor?_lt hx), hx]
  | none =>
    cases hname' : g₂.tensorNamed? name with
    | none => rfl
    | some t =>
      obtain ⟨x, hx, hxName⟩ := (h.rewired'.wellFormed.indexed name t).mp hname'
      rw [← h.symm.sameTensor t (tensor?_lt hx)] at hx
      rw [(h.rewired.wellFormed.indexed name _).mpr ⟨x, hx, hxName⟩] at hname
      cases hname

theorem matching (h : g.Alike swaps swaps' g₁ g₂ f f') (hwf : g.WellFormed) (hflows : g.Flows)
    (hboundary : ∀ t ∈ g.inputs ++ g.outputs, t.index < g.tensors.length) :
    g₁.Matches g₂ f (g.counterpart g₁ g₂ f) := by
  have hmap : ∀ ts : List TensorId, ts ⊆ g.inputs ++ g.outputs → ts = ts.map f := by
    intro ts hts
    rw [List.map_congr_left fun t ht => h.fixed t (hboundary t (hts ht)), List.map_id']
  have hinverse : Set.InvOn f' f {t | (g₁.tensor? t).isSome} {t | (g₂.tensor? t).isSome} :=
    ⟨fun t ht => (h.forth t (isSome_tensor?.mp ht)).2, fun t ht => (h.back t (isSome_tensor?.mp ht)).2⟩
  have hinverse' : Set.InvOn (g.counterpart g₂ g₁ f') (g.counterpart g₁ g₂ f)
      {n | g₁.isLive n} {n | g₂.isLive n} := by
    refine ⟨fun n hn => ?_, fun n hn => ?_⟩
    · obtain ⟨node, hnode⟩ := isLive_iff.mp hn
      exact h.counterpart_counterpart hwf hnode
    · obtain ⟨node, hnode⟩ := isLive_iff.mp hn
      exact h.symm.counterpart_counterpart hwf hnode
  obtain ⟨hinputs, houtputs⟩ := h.rewired.boundary
  obtain ⟨hinputs', houtputs'⟩ := h.rewired'.boundary
  exact
    { tensors := hinverse.bijOn (fun t ht => isSome_tensor?.mpr (h.forth t (isSome_tensor?.mp ht)).1)
        fun t ht => isSome_tensor?.mpr (h.back t (isSome_tensor?.mp ht)).1
      sameTensor := fun t ht => h.sameTensor t (isSome_tensor?.mp ht)
      names := h.names
      nodes := hinverse'.bijOn (fun n hn => h.isLive_counterpart hwf hn) fun n hn =>
        h.symm.isLive_counterpart hwf hn
      sameNode := fun n x hx => h.sameNode hwf hx
      edges := fun e' => h.mem_edges hwf hflows
      producers := fun t ht => h.producers hwf (isSome_tensor?.mp ht)
      inputs := by rw [hinputs', hinputs, ← hmap g.inputs (List.subset_append_left _ _)]
      outputs := by rw [houtputs', houtputs, ← hmap g.outputs (List.subset_append_right _ _)] }

end Alike

end Graph

end GraphLowering
