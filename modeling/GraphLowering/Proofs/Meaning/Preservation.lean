import GraphLowering.Proofs.Independence
import GraphLowering.Proofs.Meaning.Evaluation
import GraphLowering.Proofs.WholeGraph

/-!
# Lowering keeps what a graph computes

If every chain computes what its composite computes, a graph computes the same before and after all
its composites are replaced (`Edit.evaluate_lowerGraph`).

A composite is replaced in a graph in which others have been replaced before it. It gets the chain
that it would have got at first, but for the numbers of the tensors (`Edit.lowerNode_before`), so it
is enough to know what the chains of the first graph compute. A solution of the equations with the
chain is then one of the equations with the composite (`Interpretation.Refines`), and solutions are
unique.
-/

namespace GraphLowering

universe u

/-- A constant that is read is produced by a node that stands for it. -/
def Graph.ConstantsFed (g : Graph) : Prop :=
  ∀ reader t, g.Reads reader t → (g.tensor? t).any (·.isConstant) →
    ∃ n node, g.node? n = some node ∧ node.kind = .constant t

/-! ## A replaced composite -/

namespace Graph

variable {g g' : Graph} {options : Options} {id n : NodeId} {node x : Node}
  {op : Composite} {events : List Event} {o : Outline}
  {added : List Tensor} {t : TensorId}

namespace LoweredBy

theorem constantNode_kept (h : g.LoweredBy options id op events o added g')
    (hg : g.Replaceable id node op) (hfed : g.ConstantsFed) {reader : NodeId}
    (hreads : g.Reads reader t) (hconst : (g'.tensor? t).any (·.isConstant)) :
    ∃ m maker, g.node? m = some maker ∧ g'.node? m = some maker ∧ maker.kind = .constant t := by
  obtain ⟨y, hy, hmem⟩ := hreads
  rw [h.tensor?_old (hg.wellFormed.tensor_lt hy (List.mem_append_left _ hmem))] at hconst
  obtain ⟨m, maker, hmaker, hkind⟩ := hfed reader t ⟨y, hy, hmem⟩ hconst
  have hne : m ≠ id := by
    rintro rfl
    cases hg.found.symm.trans hmaker
    cases hg.kind.symm.trans hkind
  exact ⟨m, maker, hmaker, h.node?_kept hg.wellFormed hne hmaker, hkind⟩

theorem constantNode_new (h : g.LoweredBy options id op events o added g')
    (hg : g.Replaceable id node op) (hreads : Chain.Reads o.chain t)
    (hdrafted : g'.DraftedConstant g.tensors.length t) :
    ∃ m maker, g'.node? m = some maker ∧ maker.kind = .constant t := by
  obtain ⟨y, ⟨hnew, hy⟩, hconst⟩ := hdrafted
  have hproduced := h.rewired.constants _ List.mem_cons_self t hreads (by simp [hy, hconst])
  obtain ⟨m, hm⟩ := Option.isSome_iff_exists.mp hproduced
  obtain ⟨maker, hmaker, hmade⟩ := h.rewired.wellFormed.producer?_iff.mp hm
  refine ⟨m, maker, hmaker, ?_⟩
  by_cases hlt : m.index < g.nextNode
  · have := hg.wellFormed.tensor_lt (h.node?_old hlt hmaker) (List.mem_append_right _ hmade)
    omega
  · obtain ⟨r, hr, hbrought⟩ := h.rewired.brought m maker (Nat.le_of_not_lt hlt) hmaker
    cases List.mem_singleton.mp hr
    rcases hbrought with ⟨o', ho', hkind⟩ | ⟨u, hkind, _⟩
    · rw [hkind] at hmade
      rcases h.drafts.supplied.made o' ho' t hmade with rfl | ⟨z, ⟨_, hz⟩, hcomputed⟩
      · have := hg.output_lt
        omega
      · cases hy.symm.trans hz
        exact absurd hconst hcomputed
    · rw [hkind] at hmade ⊢
      rw [List.mem_singleton.mp hmade]

theorem not_reads_output (h : g.LoweredBy options id op events o added g')
    (hg : g.Replaceable id node op) :
    ¬ Chain.Reads o.chain op.output := by
  obtain ⟨drafted, _, _, hcoherent⟩ := h.outline
  have hapart := hcoherent.apart.imp fun hapart t ht => (hapart t ht).1
  refine h.drafts.supplied.not_reads_output h.drafts.threaded hapart hg.output ?_
  rintro ⟨_, ⟨hnew, _⟩, _⟩
  have := hg.output_lt
  omega

theorem constantNode_of_reads (h : g.LoweredBy options id op events o added g')
    (hg : g.Replaceable id node op) (hfed : g.ConstantsFed) (hreads : Chain.Reads o.chain t)
    (hconst : (g'.tensor? t).any (·.isConstant)) :
    ∃ m maker, g'.node? m = some maker ∧ maker.kind = .constant t := by
  rcases h.drafts.supplied.read hreads with hinput | hdrafted | ⟨o', ho', hmade⟩
  · obtain ⟨m, maker, _, hmaker, hkind⟩ := h.constantNode_kept hg hfed (hg.reads hinput) hconst
    exact ⟨m, maker, hmaker, hkind⟩
  · exact h.constantNode_new hg hreads hdrafted
  · rcases h.drafts.supplied.made o' ho' t hmade with rfl | ⟨y, ⟨_, hy⟩, hcomputed⟩
    · exact absurd hreads (h.not_reads_output hg)
    · rw [hy] at hconst
      exact absurd hconst hcomputed

theorem constantsFed (h : g.LoweredBy options id op events o added g')
    (hg : g.Replaceable id node op) (hfed : g.ConstantsFed) :
    g'.ConstantsFed := by
  rintro reader t ⟨y, hy, hmem⟩ hconst
  by_cases hlt : reader.index < g.nextNode
  · obtain ⟨m, maker, _, hmaker, hkind⟩ :=
      h.constantNode_kept hg hfed ⟨y, h.node?_old hlt hy, hmem⟩ hconst
    exact ⟨m, maker, hmaker, hkind⟩
  · obtain ⟨r, hr, hbrought⟩ := h.rewired.brought reader y (Nat.le_of_not_lt hlt) hy
    cases List.mem_singleton.mp hr
    rcases hbrought with ⟨o', ho', hkind⟩ | ⟨u, hkind, _⟩
    · rw [hkind] at hmem
      exact h.constantNode_of_reads hg hfed ⟨o', ho', hmem⟩ hconst
    · rw [hkind] at hmem
      cases hmem

theorem outer (h : g.LoweredBy options id op events o added g') (hg : g.Replaceable id node op)
    (hfed : g.ConstantsFed) (hlt : t.index < g.tensors.length) (houter : g.Outer t) : g'.Outer t := by
  have hnoResult : ∀ o' ∈ o.chain, t ∉ o'.outputs := by
    intro o' ho' hmade
    rcases h.rewired.results _ List.mem_cons_self o' ho' t hmade with rfl | hnew
    · have hinput := houter id node hg.found (by simp [hg.kind, NodeKind.outputs])
      cases hg.kind.symm.trans hinput
    · omega
  intro m maker hmaker hmade
  by_cases hold : m.index < g.nextNode
  · exact houter m maker (h.node?_old hold hmaker) hmade
  · exfalso
    obtain ⟨r, hr, hbrought⟩ := h.rewired.brought m maker (Nat.le_of_not_lt hold) hmaker
    cases List.mem_singleton.mp hr
    rcases hbrought with ⟨o', ho', hkind⟩ | ⟨u, hkind, hconst, hreads⟩
    · rw [hkind] at hmade
      exact hnoResult o' ho' hmade
    · rw [hkind] at hmade
      cases List.mem_singleton.mp hmade
      rcases h.drafts.supplied.read hreads with hinput | ⟨_, ⟨hnew, _⟩, _⟩ | ⟨o', ho', hmade'⟩
      · obtain ⟨m', maker', hmaker', _, hkind'⟩ := h.constantNode_kept hg hfed (hg.reads hinput) hconst
        cases hkind'.symm.trans (houter m' maker' hmaker' (by simp [hkind', NodeKind.outputs]))
      · omega
      · exact hnoResult o' ho' hmade'

end LoweredBy

end Graph

namespace Interpretation

variable {V : Type u}

/-! ## What a chain computes -/

def runOperators (I : Interpretation V) (chain : List Operator) (values : TensorId → V) :
    TensorId → V :=
  chain.foldl (fun values op t =>
    if t ∈ op.outputs then I.primitive op.kind (op.inputs.map values) else values t) values

/-- The values of the constants are those of their buffers. -/
def Agrees (I : Interpretation V) (g : Graph) (values : TensorId → V) : Prop :=
  ∀ t x, g.tensor? t = some x → x.isConstant → values t = I.constant x

def withBuffers (I : Interpretation V) (g : Graph) (values : TensorId → V) (t : TensorId) : V :=
  match g.tensor? t with
  | none => values t
  | some x => if x.isConstant then I.constant x else values t

variable {I : Interpretation V} {g g' : Graph} {values start : TensorId → V}
  {chain : List Operator} {t : TensorId}

theorem agrees_withBuffers : I.Agrees g (I.withBuffers g values) := by
  intro t x hx hconst
  simp [withBuffers, hx, hconst]

theorem withBuffers_eq (h : ∀ x, g.tensor? t = some x → x.isConstant → values t = I.constant x) :
    I.withBuffers g values t = values t := by
  unfold withBuffers
  split
  · rfl
  · next x hx =>
    split
    · next hconst => exact (h x hx hconst).symm
    · rfl

theorem evaluate_eq_runOperators {ids : List NodeId} (h : List.Forall₂ g.HasOperator ids chain) :
    I.evaluate g ids values = I.runOperators chain values := by
  induction h generalizing values with
  | nil => rfl
  | @cons n op _ _ hoperator _ ih =>
    obtain ⟨node, hnode, hkind⟩ := Graph.hasOperator_iff.mp hoperator
    have hhead : I.evaluateNode g values n = fun t =>
        if t ∈ op.outputs then I.primitive op.kind (op.inputs.map values) else values t := by
      funext t
      simp [evaluateNode, hnode, hkind, NodeKind.outputs, value?]
    unfold evaluate runOperators at ih ⊢
    rw [List.foldl_cons, List.foldl_cons, hhead]
    exact ih

theorem runOperators_eq {draft : Graph} {first : Nat} {output : TensorId} {ready : List TensorId}
    (h : Chain.Supplied draft first output ready chain) (hready : ∀ t ∈ ready, start t = values t)
    (hconstants : ∀ t, draft.DraftedConstant first t → Chain.Reads chain t → start t = values t)
    (hsolves : ∀ op ∈ chain, ∀ t ∈ op.outputs, values t = I.primitive op.kind (op.inputs.map values))
    (ht : t ∈ ready ∨ ∃ op ∈ chain, t ∈ op.outputs) : I.runOperators chain start t = values t := by
  induction h generalizing start with
  | nil =>
    rcases ht with hmem | ⟨_, hop, _⟩
    · exact hready t hmem
    · cases hop
  | @cons ready op rest _ havailable _ _ ih =>
    obtain ⟨hhead, htail⟩ := List.forall_mem_cons.mp hsolves
    have hinputs : op.inputs.map start = op.inputs.map values := by
      refine List.map_congr_left fun u hu => ?_
      exact (havailable u hu).elim (hready u) fun hconst => hconstants u hconst (.head hu)
    -- the step computes the values of its results and leaves the others alone
    have hstep : ∀ u, (u ∉ op.outputs → start u = values u) →
        (if u ∈ op.outputs then I.primitive op.kind (op.inputs.map start) else start u) = values u := by
      intro u hu
      split
      · next hmem => rw [hinputs, hhead u hmem]
      · next hmem => exact hu hmem
    refine ih (fun u hu => hstep u fun hnot => ?_) (fun u hconst hreads => hstep u fun _ => ?_) htail ?_
    · exact hready u ((List.mem_append.mp hu).resolve_left hnot)
    · exact hconstants u hconst hreads.tail
    · rcases ht with hmem | ⟨maker, hmaker, hmade⟩
      · exact .inl (List.mem_append_right _ hmem)
      · rcases List.mem_cons.mp hmaker with rfl | hmaker
        · exact .inl (List.mem_append_left _ hmade)
        · exact .inr ⟨maker, hmaker, hmade⟩

theorem runOperators_rename {f : TensorId → TensorId} (hf : Function.Injective f) :
    I.runOperators (chain.map (Operator.rename f)) values (f t) =
      I.runOperators chain (fun t => values (f t)) t := by
  induction chain generalizing values with
  | nil => rfl
  | cons op rest ih =>
    unfold runOperators at ih ⊢
    rw [List.map_cons, List.foldl_cons, List.foldl_cons, ih]
    simp only [Operator.rename, List.mem_map_of_injective hf, List.map_map]
    rfl

/-! ## Solutions -/

/-- A graph goes on computing what another one computed: its solutions solve the equations before,
and nothing that came from outside is computed now. -/
structure Refines (I : Interpretation V) (g g' : Graph) : Prop where
  tensors : g.tensors <+: g'.tensors
  outputs : g'.outputs = g.outputs
  solves : ∀ values, I.Solves g' values → I.Solves g values
  outer : ∀ t, t.index < g.tensors.length → g.Outer t → g'.Outer t

namespace Refines

theorem refl (g : Graph) : I.Refines g g :=
  ⟨List.prefix_refl _, rfl, fun _ h => h, fun _ _ h => h⟩

theorem trans {g'' : Graph} (h : I.Refines g g') (h' : I.Refines g' g'') : I.Refines g g'' where
  tensors := h.tensors.trans h'.tensors
  outputs := h'.outputs.trans h.outputs
  solves values hsolves := h.solves values (h'.solves values hsolves)
  outer t ht houter := h'.outer t (Nat.lt_of_lt_of_le ht h.tensors.length_le) (h.outer t ht houter)

theorem evaluate_eq (h : I.Refines g g') (hdag : g.Dag) (hdag' : g'.Dag)
    {order order' : List NodeId} (horder : g.Ordered order) (horder' : g'.Ordered order')
    (ht : t.index < g.tensors.length) :
    I.evaluate g' order' values t = I.evaluate g order values t := by
  refine (h.solves _ (evaluate_solves hdag'.exact horder')).unique hdag.exact horder
    (evaluate_solves hdag.exact horder) ?_ ht
  intro u hu houter
  rw [evaluate_outer houter, evaluate_outer (h.outer u hu houter)]

end Refines

section LoweredBy

variable {options : Options} {id : NodeId} {node : Node} {op : Composite}
  {events : List Event} {o : Outline} {added : List Tensor}

theorem Solves.constant (h : I.Solves g values) {n : NodeId} {node : Node}
    (hnode : g.node? n = some node) (hkind : node.kind = .constant t) {x : Tensor}
    (hx : g.tensor? t = some x) : values t = I.constant x := by
  refine h n node (I.constant x) hnode ?_ t ?_
  · simp [hkind, value?, hx]
  · simp [hkind, NodeKind.outputs]

theorem Solves.output (hlowered : g.LoweredBy options id op events o added g')
    (hg : g.Replaceable id node op) (hfed : g.ConstantsFed)
    (hmeans : ∀ values, I.Agrees g' values →
      I.runOperators o.chain values op.output = I.composite op (op.inputs.map values))
    (h : I.Solves g' values) : values op.output = I.composite op (op.inputs.map values) := by
  have hinputs : ∀ t ∈ op.inputs, I.withBuffers g' values t = values t := by
    refine fun t ht => withBuffers_eq fun x hx hconst => ?_
    obtain ⟨m, maker, _, hmaker, hkind⟩ :=
      hlowered.constantNode_kept hg hfed (hg.reads ht) (by simp [hx, hconst])
    exact h.constant hmaker hkind hx
  have hconstants : ∀ t, g'.DraftedConstant g.tensors.length t →
      Chain.Reads o.chain t → I.withBuffers g' values t = values t := by
    refine fun t hdrafted hreads => withBuffers_eq fun x hx _ => ?_
    obtain ⟨m, maker, hmaker, hkind⟩ := hlowered.constantNode_new hg hreads hdrafted
    exact h.constant hmaker hkind hx
  have hsolves :
      ∀ o' ∈ o.chain, ∀ t ∈ o'.outputs, values t = I.primitive o'.kind (o'.inputs.map values) := by
    intro o' ho' t ht
    obtain ⟨n, _, hplaced⟩ := hlowered.rewired.placed _ List.mem_cons_self o' ho'
    obtain ⟨x, hx, hkind⟩ := Graph.hasOperator_iff.mp hplaced
    exact h n x _ hx (by simp [hkind, value?]) t (by simpa [hkind, NodeKind.outputs] using ht)
  obtain ⟨last, hlast, hmade⟩ := hlowered.drafts.threaded.made
  calc values op.output = I.runOperators o.chain (I.withBuffers g' values) op.output :=
        (runOperators_eq hlowered.drafts.supplied hinputs hconstants hsolves
          (.inr ⟨last, hlast, hmade⟩)).symm
    _ = I.composite op (op.inputs.map (I.withBuffers g' values)) := hmeans _ agrees_withBuffers
    _ = I.composite op (op.inputs.map values) := by rw [List.map_congr_left hinputs]

theorem refines_of_loweredBy (hlowered : g.LoweredBy options id op events o added g')
    (hg : g.Replaceable id node op) (hfed : g.ConstantsFed)
    (hmeans : ∀ values, I.Agrees g' values →
      I.runOperators o.chain values op.output = I.composite op (op.inputs.map values)) :
    I.Refines g g' where
  tensors := hlowered.rewired.tensors
  outputs := hlowered.rewired.boundary.2
  solves values hsolves := by
    intro n x value hx hvalue t ht
    by_cases hid : n = id
    · subst hid
      cases hg.found.symm.trans hx
      rw [hg.kind] at hvalue ht
      cases List.mem_singleton.mp ht
      cases hvalue
      exact hsolves.output hlowered hg hfed hmeans
    · refine hsolves n x value (hlowered.node?_kept hg.wellFormed hid hx) ?_ t ht
      rw [← hvalue]
      cases hkind : x.kind with
      | constant u =>
        have hu : u.index < g.tensors.length :=
          hg.wellFormed.tensor_lt hx (by simp [hkind, NodeKind.outputs])
        exact congrArg (Option.map I.constant) (hlowered.tensor?_old hu)
      | input | output | operator | composite => rfl
  outer _ hlt := hlowered.outer hg hfed hlt

end LoweredBy

/-! ## All composites of a graph -/

/-- The chain that the lowering of a composite emits computes the same as the composite, if the
values of the constants are those of their buffers. -/
def Respects (I : Interpretation V) (options : Options) (s : Session) : Prop :=
  ∀ id node op result s', s.graph.node? id = some node → node.kind = .composite op →
    Edit.lowerNode id options s = .ok result s' → ∀ values, I.Agrees s'.graph values →
      I.evaluate s'.graph result.nodes values op.output = I.composite op (op.inputs.map values)

section Lowering

variable {s₀ s s' : Session} {options : Options} {id : NodeId}
  {node : Node} {op : Composite} {o : Outline} {added extra : List Tensor}

theorem operators_of_loweredBy
    (hlowered : s.graph.LoweredBy options id op s.events o added s'.graph)
    (hnode : s.graph.node? id = some node) (hkind : node.kind = .composite op) {result : Lowered}
    (hrun : Edit.lowerNode id options s = .ok result s') :
    List.Forall₂ s'.graph.HasOperator result.nodes o.chain := by
  obtain ⟨o₁, t₁, houtline₁, _, _, emitted, hemits, hlinked, _⟩ := Edit.lowerNode_ok hnode hkind hrun
  obtain ⟨t, houtline, _⟩ := hlowered.outline
  rw [houtline] at houtline₁
  cases houtline₁
  refine hemits.nodes.imp ?_
  rintro n operator ⟨name, hn, _⟩
  exact Graph.hasOperator_iff.mpr ⟨_, (hlinked.node? n).trans hn, rfl⟩

/-- A chain that is emitted later computes what it would have computed at first. -/
theorem Respects.later (h : I.Respects options s₀) (hwf₀ : s₀.graph.WellFormed)
    (hflows₀ : s₀.graph.Flows) (hnode : s₀.graph.node? id = some node)
    (hkind : node.kind = .composite op) (hwf : s.graph.WellFormed)
    (htensors : s.graph.tensors = s₀.graph.tensors ++ extra)
    (hlowered : s.graph.LoweredBy options id op s.events o added g')
    (hagrees : I.Agrees g' values) :
    I.runOperators o.chain values op.output = I.composite op (op.inputs.map values) := by
  obtain ⟨o, result, s', hrun, hlowered₀, rfl, hfree⟩ :=
    Edit.lowerNode_before hwf₀ hflows₀ hnode hkind hwf htensors hlowered
  have htensors' : g'.tensors = s₀.graph.tensors ++ (extra ++ added) := by
    rw [hlowered.tensors, htensors, List.append_assoc]
  have hmirrored : Mirrored s₀.graph.tensors extra s'.graph g' added :=
    ⟨hlowered₀.tensors, htensors', hlowered₀.rewired.wellFormed.named,
      hlowered.rewired.wellFormed.named, hfree⟩
  have hagrees₀ : I.Agrees s'.graph fun t => values (t.move s₀.graph.tensors extra) :=
    fun t x hx hconst => hagrees _ x ((hmirrored.tensor? t).trans hx) hconst
  have hchain := h id node op result s' hnode hkind hrun _ hagrees₀
  rw [evaluate_eq_runOperators (operators_of_loweredBy hlowered₀ hnode hkind hrun)] at hchain
  have hfixed : ∀ t, t ∈ op.inputs ∨ t = op.output → t.move s₀.graph.tensors extra = t := by
    refine fun t ht => TensorId.move_of_lt (hwf₀.tensor_lt hnode ?_)
    simpa [hkind, NodeKind.inputs, NodeKind.outputs] using ht
  calc I.runOperators (o.chain.map (Operator.rename (TensorId.move s₀.graph.tensors extra))) values
        op.output
      = I.runOperators (o.chain.map (Operator.rename (TensorId.move s₀.graph.tensors extra))) values
          (op.output.move s₀.graph.tensors extra) := by
        rw [hfixed op.output (.inr rfl)]
    _ = I.runOperators o.chain (fun t => values (t.move s₀.graph.tensors extra)) op.output :=
        runOperators_rename (TensorId.move_injective _ _)
    _ = I.composite op (op.inputs.map fun t => values (t.move s₀.graph.tensors extra)) := hchain
    _ = I.composite op (op.inputs.map values) := by
        rw [List.map_congr_left fun t ht => congrArg values (hfixed t (.inl ht))]

/-- Composites are replaced one by one, and each of the graphs in between computes the same. -/
theorem Respects.refines (h : I.Respects options s₀) (hwf₀ : s₀.graph.WellFormed)
    (hflows₀ : s₀.graph.Flows) {ids : List NodeId} {results : List Lowered} (hdag : s.graph.Dag)
    (hfed : s.graph.ConstantsFed) (htensors : s₀.graph.tensors <+: s.graph.tensors)
    (hnodup : ids.Nodup)
    (hids : ∀ id ∈ ids, s₀.graph.isComposite id ∧ s.graph.node? id = s₀.graph.node? id)
    (hrun : ids.mapM (Edit.lowerNode · options) s = .ok results s') :
    s'.graph.Dag ∧ I.Refines s.graph s'.graph := by
  induction ids generalizing s results with
  | nil =>
    cases hrun
    exact ⟨hdag, .refl _⟩
  | cons id rest ih =>
    rw [List.mapM_cons, run_bind_eq_ok] at hrun
    obtain ⟨result, s₁, hhead, hothers⟩ := hrun
    obtain ⟨others, s₂, hrest, hreturn⟩ := run_bind_eq_ok.mp hothers
    cases hreturn
    obtain ⟨⟨hcomposite, hsame⟩, hleft⟩ := List.forall_mem_cons.mp hids
    obtain ⟨hid, hnodup⟩ := List.nodup_cons.mp hnodup
    obtain ⟨node, op, hnode₀, hkind⟩ := Graph.isComposite_iff.mp hcomposite
    have hnode : s.graph.node? id = some node := hsame.trans hnode₀
    have hwf := hdag.exact.wellFormed
    have hg := hdag.acyclic.replaceable hdag.exact hnode hkind
    obtain ⟨o, added, hlowered⟩ := Edit.lowerNode_loweredBy hwf hdag.exact.flows hnode hkind hhead
    have hstep : I.Refines s.graph s₁.graph := by
      obtain ⟨extra, hextra⟩ := htensors
      exact refines_of_loweredBy hlowered hg hfed fun values =>
        h.later hwf₀ hflows₀ hnode₀ hkind hwf hextra.symm hlowered
    have hdag₁ := (((Edit.lowerNode_run id options s).1 _ _ hhead).keeps hdag).1
    have hkept : ∀ n ∈ rest, s₀.graph.isComposite n ∧ s₁.graph.node? n = s₀.graph.node? n := by
      intro n hn
      obtain ⟨hcomposite', hsame'⟩ := hleft n hn
      obtain ⟨x, _, hx, _⟩ := Graph.isComposite_iff.mp hcomposite'
      have hne : n ≠ id := fun heq => hid (heq ▸ hn)
      exact ⟨hcomposite', (hlowered.node?_kept hwf hne (hsame'.trans hx)).trans hx.symm⟩
    obtain ⟨hdag', hrefines⟩ :=
      ih hdag₁ (hlowered.constantsFed hg hfed) (htensors.trans hstep.tensors) hnodup hkept hrest
    exact ⟨hdag', hstep.trans hrefines⟩

end Lowering

end Interpretation

/-! ## Sums -/

/-- Every operation adds up its operands, and constants count for nothing. -/
def Interpretation.sums : Interpretation Int :=
  ⟨fun _ => 0, fun _ operands => operands.foldr (· + ·) 0, fun _ operands => operands.foldr (· + ·) 0⟩

theorem Graph.forall₂_hasOperator {g : Graph} {ids : List NodeId} {chain : List Operator}
    (h : ids.map (fun n => (g.node? n).map (·.kind)) = chain.map fun op => some (.operator op)) :
    List.Forall₂ g.HasOperator ids chain := by
  rw [← List.forall₂_eq_eq_eq, List.forall₂_map_left_iff, List.forall₂_map_right_iff] at h
  exact h

def weighted (x y : TensorId) : Composite :=
  .convolution ⟨x, ⟨1⟩, none, y, .unit 2, .none⟩

def weightedChain (x y : TensorId) : List Operator :=
  [⟨.transpose, [x, ⟨5⟩], [⟨6⟩]⟩, ⟨.transpose, [⟨1⟩, ⟨8⟩], [⟨9⟩]⟩,
    ⟨.depthwiseConv2d ⟨.valid, ⟨1, 1⟩⟩ ⟨1, 1⟩ 1 .none, [⟨6⟩, ⟨9⟩, ⟨10⟩], [⟨7⟩]⟩,
      ⟨.transpose, [⟨7⟩, ⟨4⟩], [y]⟩]

def emitsWeighted (s : Session) (id : NodeId) (x y : TensorId) : Bool :=
  ((Edit.lowerNode id .default).success? s).any fun r =>
    r.1.nodes.map (fun n => (r.2.graph.node? n).map (·.kind)) =
      (weightedChain x y).map (fun op => some (.operator op)) ∧
      [4, 5, 8, 10].all fun i => (r.2.graph.tensor? ⟨i⟩).any (·.isConstant)

theorem Interpretation.sums_weighted {s s' : Session} {id : NodeId} {x y : TensorId}
    (h : emitsWeighted s id x y) {result : Lowered}
    (hrun : Edit.lowerNode id .default s = .ok result s') {values : TensorId → Int}
    (hagrees : sums.Agrees s'.graph values) :
    sums.evaluate s'.graph result.nodes values y =
      sums.composite (weighted x y) ((weighted x y).inputs.map values) := by
  simp only [emitsWeighted, Edit.success?, hrun, Option.any_some,
    Bool.decide_and, Bool.and_eq_true, decide_eq_true_eq] at h
  obtain ⟨hchain, hconst⟩ := h
  have hzero : ∀ i ∈ [4, 5, 8, 10], values ⟨i⟩ = 0 := by
    intro i hi
    obtain ⟨t, ht, hconstant⟩ := (Option.any_eq_true _ _).mp (List.all_eq_true.mp hconst i hi)
    exact hagrees ⟨i⟩ t ht hconstant
  simp only [List.forall_mem_cons] at hzero
  obtain ⟨h4, h5, h8, h10, _⟩ := hzero
  rw [evaluate_eq_runOperators (Graph.forall₂_hasOperator hchain)]
  simp [runOperators, weightedChain, weighted, Composite.inputs, sums, h4, h5, h8, h10]

/-! ## The whole graph -/

/-- If each chain computes what its composite computes, lowering all composites changes the value of
no tensor that was there, and the model has the same outputs. -/
theorem Edit.evaluate_lowerGraph {V : Type u} (I : Interpretation V) {s s' : Session}
    {options : Options} {report : Report} (hdag : s.graph.Dag) (hfed : s.graph.ConstantsFed)
    (hrespects : I.Respects options s) (hrun : lowerGraph options s = .ok report s') :
    ∃ order order', s.graph.topologicalOrder = .ok order ∧ s'.graph.topologicalOrder = .ok order' ∧
      s'.graph.outputs = s.graph.outputs ∧ ∀ (values : TensorId → V) t, (s.graph.tensor? t).isSome →
        I.evaluate s'.graph order' values t = I.evaluate s.graph order values t := by
  have hwf := hdag.exact.wellFormed
  obtain ⟨order, horder⟩ := hdag.acyclic.exists_order hwf.ends
  have hordered := Graph.ordered_of_topologicalOrder hwf.ends horder
  obtain ⟨results, hresults, _⟩ := (loweredAll hwf horder hrun).results
  obtain ⟨hdag', hrefines⟩ := hrespects.refines hwf hdag.exact.flows hdag hfed (List.prefix_refl _)
    (hordered.nodup.filter _) (fun n hn => ⟨(List.mem_filter.mp hn).2, rfl⟩) hresults
  have hwf' := hdag'.exact.wellFormed
  obtain ⟨order', horder'⟩ := hdag'.acyclic.exists_order hwf'.ends
  refine ⟨order, order', horder, horder', hrefines.outputs, fun values t ht => ?_⟩
  obtain ⟨x, hx⟩ := Option.isSome_iff_exists.mp ht
  exact hrefines.evaluate_eq hdag hdag' hordered
    (Graph.ordered_of_topologicalOrder hwf'.ends horder') (Graph.tensor?_lt hx)

/-- Two convolutions one after the other, with the same weight. -/
theorem Edit.evaluate_lowerGraph_sums :
    ∃ w report s order order',
        World.after (convolutionCalls .f32 ++ [.addTensor (.computed "z" ⟨.f32, ⟨[1, 1, 2, 2]⟩⟩ none),
        .addComposite (weighted ⟨2⟩ ⟨3⟩)]) = some w ∧ lowerGraph .default w.session = .ok report s ∧
      w.graph.topologicalOrder = .ok order ∧ s.graph.topologicalOrder = .ok order' ∧
      ∀ values t, (w.graph.tensor? t).isSome →
        Interpretation.sums.evaluate s.graph order' values t =
          Interpretation.sums.evaluate w.graph order values t := by
  have hrun :
      ((World.after (convolutionCalls .f32 ++ [.addTensor (.computed "z" ⟨.f32, ⟨[1, 1, 2, 2]⟩⟩ none),
      .addComposite (weighted ⟨2⟩ ⟨3⟩)])).bind fun w =>
        ((lowerGraph .default).success? w.session).map fun _ =>
        (w.graph.isForward, w.graph.tensors.any (·.isConstant),
          (w.graph.nodes.entries.map fun e => (e.1, e.2.kind)).filter (·.2.isComposite),
          emitsWeighted w.session ⟨2⟩ ⟨0⟩ ⟨2⟩, emitsWeighted w.session ⟨3⟩ ⟨2⟩ ⟨3⟩)) =
      some (true, false, [(2, .composite (weighted ⟨0⟩ ⟨2⟩)), (3, .composite (weighted ⟨2⟩ ⟨3⟩))],
        true, true) := by
    decide +kernel
  obtain ⟨w, hw, hrun⟩ := Option.bind_eq_some_iff.mp hrun
  obtain ⟨⟨report, s⟩, hall, hfacts⟩ := Option.map_eq_some_iff.mp hrun
  simp only [Prod.mk.injEq] at hfacts
  obtain ⟨hforward, hcomputed, hcomposites, hfirst, hsecond⟩ := hfacts
  have hsound := World.after_sound hw
  have hdag := Graph.dag_of_isForward hforward hsound.wellFormed (hsound.flows (by decide))
  have hfed : w.graph.ConstantsFed := by
    intro reader t _ hconst
    obtain ⟨x, hx, hconst⟩ := (Option.any_eq_true _ _).mp hconst
    have hany : w.graph.tensors.any (·.isConstant) :=
      List.any_eq_true.mpr ⟨x, List.mem_of_getElem? hx, hconst⟩
    simp [hcomputed] at hany
  have hrespects : Interpretation.sums.Respects .default w.session := by
    intro id node op result s' hnode hkind hlower values hagrees
    have hmem : (id.index, node.kind) ∈
        (w.graph.nodes.entries.map fun e => (e.1, e.2.kind)).filter (·.2.isComposite) := by
      refine List.mem_filter.mpr
        ⟨List.mem_map.mpr ⟨(id.index, node), Table.mem_entries.mpr hnode, rfl⟩, ?_⟩
      rw [hkind]
      rfl
    rw [hcomposites, hkind] at hmem
    obtain ⟨index⟩ := id
    simp only [List.mem_cons, Prod.mk.injEq, NodeKind.composite.injEq, List.not_mem_nil, or_false]
      at hmem
    rcases hmem with ⟨rfl, rfl⟩ | ⟨rfl, rfl⟩
    · exact Interpretation.sums_weighted hfirst hlower hagrees
    · exact Interpretation.sums_weighted hsecond hlower hagrees
  obtain ⟨order, order', horder, horder', _, hvalues⟩ :=
    evaluate_lowerGraph Interpretation.sums hdag hfed hrespects (success?_eq_some hall)
  exact ⟨w, report, s, order, order', hw, success?_eq_some hall, horder, horder', hvalues⟩

end GraphLowering
