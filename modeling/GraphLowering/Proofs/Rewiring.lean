import GraphLowering.Proofs.Feeding

/-!
# What a replaced composite leaves

After composites were replaced by chains, everything about the graph can be told from the graph
before and the chains (`Graph.Rewired`): which nodes are there, and which of them have an edge for a
tensor they read. Nodes that were there keep the edges they had, from the new producers where the
old one is gone. A new operator has an edge for every operand that is produced, except for the
output of its composite.

This is independent of the numbers of the new nodes, and it can be put together from one replacement
to the next (`Graph.Rewired.trans`).
-/

namespace GraphLowering

namespace Graph

variable {g h h' : Graph} {n : NodeId} {node : Node} {chain : List Operator}
  {ids : List NodeId} {t : TensorId} {first : Nat}

/-! ## Graphs in which composites were replaced -/

/-- A composite, its output, and the chain that has taken its place. -/
structure Swap where
  id : NodeId
  output : TensorId
  chain : List Operator

/-- The composites of a graph were replaced by chains. -/
structure Rewired (g : Graph) (swaps : List Swap) (g' : Graph) : Prop where
  wellFormed : g'.WellFormed
  flows : g'.Flows
  tensors : g.tensors <+: g'.tensors
  boundary : g'.inputs = g.inputs ∧ g'.outputs = g.outputs
  next : g.nextNode ≤ g'.nextNode
  replaced : ∀ r ∈ swaps, ∀ t, g.producer? t = some r.id ↔ t = r.output
  oneResult : ∀ r ∈ swaps, ∀ op ∈ r.chain, op.outputs.length = 1
  results : ∀ r ∈ swaps, ∀ op ∈ r.chain, ∀ t ∈ op.outputs, t = r.output ∨ g.tensors.length ≤ t.index
  computed : ∀ r ∈ swaps, ∃ op ∈ r.chain, r.output ∈ op.outputs
  old : ∀ n : NodeId, n.index < g.nextNode → g'.node? n = if n ∈ swaps.map (·.id)
    then none else g.node? n
  labelled : g'.Labelled g.nextNode
  brought : ∀ n node, g.nextNode ≤ n.index → g'.node? n = some node →
    ∃ r ∈ swaps, g'.Brought r.chain node.kind
  placed : ∀ r ∈ swaps, ∀ op ∈ r.chain, ∃ n : NodeId, g.nextNode ≤ n.index ∧ g'.HasOperator n op
  constants : ∀ r ∈ swaps, ∀ t, Chain.Reads r.chain t → (g'.tensor? t).any (·.isConstant) →
    (g'.producer? t).isSome
  fed : ∀ reader t, g'.Fed reader t ↔
    reader.index < g.nextNode ∧ reader ∉ swaps.map (·.id) ∧ g.Fed reader t ∨
      g.nextNode ≤ reader.index ∧ ∃ r ∈ swaps, g'.Takes r.chain r.output reader t

/-- A composite of a graph along the flow of data is taken out, and the chain of its outline is
inserted. -/
structure Exchange (g : Graph) (id : NodeId) (node : Node) (op : Composite)
    (o : Outline) (drafted emitted : Graph) : Prop where
  wellFormed : g.WellFormed
  flows : g.Flows
  found : g.node? id = some node
  kind : node.kind = .composite op
  outlines : op.Outlines (g.eraseNode id) o drafted
  emits : ∃ ids, drafted.Emits o.chain ids emitted

namespace Exchange

variable {g' drafted emitted : Graph} {id : NodeId} {op : Composite} {o : Outline}

theorem drafts (hx : g.Exchange id node op o drafted emitted) :
    op.Drafts drafted g.tensors.length o.chain :=
  hx.outlines.2 drafted (List.prefix_refl _)

theorem drafted_wellFormed (hx : g.Exchange id node op o drafted emitted) : drafted.WellFormed :=
  hx.outlines.1.wellFormed (hx.wellFormed.eraseNode id)

theorem nextNode_drafted (hx : g.Exchange id node op o drafted emitted) :
    drafted.nextNode = g.nextNode :=
  hx.outlines.1.nextNode_eq

theorem grown (hx : g.Exchange id node op o drafted emitted) :
    Grows (fun _ _ => True) (g.eraseNode id) emitted := by
  obtain ⟨ids, hemits⟩ := hx.emits
  exact hx.outlines.1.grows.trans hemits.grown

theorem emitted_node? (hx : g.Exchange id node op o drafted emitted) (hn : n.index < g.nextNode) :
    emitted.node? n = if n = id then none else g.node? n := by
  rw [hx.grown.node?_of_lt hn, node?_eraseNode]

theorem fed_drafted (hx : g.Exchange id node op o drafted emitted) {reader : NodeId} :
    drafted.Fed reader t ↔ ∃ source, ⟨source, reader, t⟩ ∈ g.edges ∧ reader ≠ id ∧ source ≠ id := by
  have hedges : drafted.edges = (g.eraseNode id).edges := by rw [Registers.eq hx.outlines.1]
  unfold Fed
  simp only [hedges, mem_edges_eraseNode]

theorem fed (hx : g.Exchange id node op o drafted emitted)
    (hedges : ∀ e, e ∈ g'.edges ↔ e ∈ emitted.edges ∨ (g.detachment id node).Restores emitted e)
    {reader : NodeId} :
    g'.Fed reader t ↔ reader.index < g.nextNode ∧ reader ≠ id ∧ g.Fed reader t ∨
      g.nextNode ≤ reader.index ∧ emitted.Takes o.chain op.output reader t := by
  obtain ⟨ids, hemits⟩ := hx.emits
  have hemitted :=
    hemits.fed hx.drafted_wellFormed (fun _ => rfl) hx.drafts.supplied (fun _ => hx.drafts.threaded)
    (fun u hu => .inl (hx.wellFormed.operand_lt hx.found hx.kind hu)) reader t
  rw [hx.nextNode_drafted] at hemitted
  have hfed : g'.Fed reader t ↔ emitted.Fed reader t ∨
      ∃ source, (g.detachment id node).Restores emitted ⟨source, reader, t⟩ := by
    unfold Fed
    simp only [hedges, exists_or]
  rw [hfed, hemitted, hx.fed_drafted]
  constructor
  · rintro ((⟨source, he, hreader, _⟩ | htakes)
      | ⟨source, hproducer, ⟨hmem, hnew, hreads⟩ | ⟨hmem, _⟩⟩)
    · exact .inl ⟨hx.wellFormed.lt_of_live (hx.flows _ he).live.2, hreader, source, he⟩
    · exact .inr htakes
    · -- a new reader of an operand of the composite
      refine .inr ⟨hnew, ?_⟩
      obtain ⟨other, hother, hread⟩ := hreads
      have hflow := hx.flows _ (mem_predecessors_detachment.mp hmem)
      rcases hemits.brought hx.drafted_wellFormed hother
        with hold | ⟨_, ⟨o', ho', hkind⟩ | ⟨u, hkind, _⟩⟩
      · have hlt := (hx.drafted_wellFormed.stored reader other hold).2
        rw [hx.nextNode_drafted] at hlt
        exact absurd hlt (Nat.not_lt.mpr hnew)
      · rw [hkind] at hread
        refine ⟨o', ho', hasOperator_iff.mpr ⟨other, hother, hkind⟩,
          hread, ?_, Option.isSome_iff_exists.mpr ⟨source, hproducer⟩⟩
        rintro rfl
        -- the output was produced by the composite, which is not there any more
        have hid : source = id := by
          have hsource := hflow.1
          rw [hx.wellFormed.producer?_output hx.found hx.kind] at hsource
          exact (Option.some.inj hsource).symm
        have hlive := (producer?_eq_some.mp hproducer).2
        rw [isLive_eq_isSome, hx.emitted_node? (hx.wellFormed.lt_of_live hflow.live.1), if_pos hid]
          at hlive
        cases hlive
      · rw [hkind] at hread
        cases hread
    · obtain ⟨he, hreader⟩ := mem_successors_detachment.mp hmem
      exact .inl ⟨hx.wellFormed.lt_of_live (hx.flows _ he).live.2, hreader, id, he⟩
  · rintro (⟨hold, hreader, source, he⟩ | htakes)
    · by_cases hsource : source = id
      · subst hsource
        obtain rfl := hx.wellFormed.eq_output hx.found hx.kind (hx.flows _ he).1
        obtain ⟨o', ho', hmade⟩ := hx.drafts.threaded.made
        obtain ⟨maker, hmaker⟩ :=
          Option.isSome_iff_exists.mp (hemits.produced hx.drafted_wellFormed ho' hmade)
        refine .inr ⟨maker, hmaker, .inr ⟨mem_successors_detachment.mpr ⟨he, hreader⟩, ?_⟩⟩
        rw [isLive_eq_isSome, hx.emitted_node? hold, if_neg hreader]
        exact (hx.flows _ he).live.2
      · exact .inl (.inl ⟨source, he, hreader, hsource⟩)
    · exact .inl (.inr htakes)

end Exchange

theorem Rewired.single {g' drafted : Graph} {id : NodeId} {op : Composite} {o : Outline}
    (hwf : g.WellFormed) (hflows : g.Flows) (hnode : g.node? id = some node)
    (hkind : node.kind = .composite op) (houtlines : op.Outlines (g.eraseNode id) o drafted)
    (hgrows : Grows (g.detachment id node).Permits (g.eraseNode id) g')
    (hreplaces : drafted.Replaces (g.detachment id node) o.chain ids g') :
    g.Rewired [⟨id, op.output, o.chain⟩] g' := by
  obtain ⟨emitted, hemits, hlinked, _, hedges⟩ := hreplaces
  have hx : g.Exchange id node op o drafted emitted :=
    ⟨hwf, hflows, hnode, hkind, houtlines, ids, hemits⟩
  obtain ⟨hwf₁, _, hflows₁⟩ := Evolves.eraseNode g id hwf
  have hdrafted := hx.drafted_wellFormed
  have hnext := hx.nextNode_drafted
  have htensors : ∀ t, g'.tensor? t = drafted.tensor? t :=
    fun t => (hlinked.tensor? t).trans (hemits.tensor? t)
  have hplaced : ∀ n o', g'.HasOperator n o' ↔ emitted.HasOperator n o' := by
    intro n o'
    unfold HasOperator
    rw [hlinked.node?]
  exact
    { wellFormed := hgrows.wellFormed hwf₁
      flows := hgrows.flows hwf₁ (hflows.current hwf) (hflows₁ hflows)
      tensors := hgrows.tensors_extend
      boundary := hgrows.boundary
      next := hgrows.nextNode_le
      replaced := by
        intro r hr t
        rw [List.mem_singleton.mp hr]
        refine ⟨hwf.eq_output hnode hkind, ?_⟩
        rintro rfl
        exact hwf.producer?_output hnode hkind
      oneResult := by
        intro r hr
        rw [List.mem_singleton.mp hr]
        exact hx.drafts.supplied.single
      results := by
        intro r hr o' ho' t ht
        rw [List.mem_singleton.mp hr] at ho' ⊢
        refine (hx.drafts.supplied.made o' ho' t ht).imp_right ?_
        rintro ⟨_, ⟨hnew, _⟩, _⟩
        exact hnew
      computed := by
        intro r hr
        rw [List.mem_singleton.mp hr]
        exact hx.drafts.threaded.made
      old := by
        intro n hn
        rw [hlinked.node?, hx.emitted_node? hn]
        simp
      labelled := by
        have hstart : drafted.Labelled g.nextNode := by
          intro n node hn hnode
          have := (hdrafted.stored n node hnode).2
          omega
        intro n node hn hnode
        rw [hlinked.node?] at hnode
        rw [nameFor_congr hlinked.tensor?]
        exact hemits.labelled hstart n node hn hnode
      brought := by
        intro n node hn hnode
        refine ⟨_, List.mem_singleton_self _, ?_⟩
        rw [hlinked.node?] at hnode
        rcases hemits.brought hdrafted hnode with hold | ⟨_, hbrought⟩
        · have := (hdrafted.stored n node hold).2
          omega
        · unfold Brought at hbrought ⊢
          simpa only [htensors] using hbrought
      placed := by
        intro r hr o' ho'
        rw [List.mem_singleton.mp hr] at ho'
        simp only [hplaced, ← hnext]
        exact hemits.placed ho'
      constants := by
        intro r hr t hread hconst
        rw [List.mem_singleton.mp hr] at hread
        rw [htensors] at hconst
        rw [hlinked.producer?]
        exact hemits.constants hdrafted hread hconst
      fed := by
        intro reader t
        rw [hx.fed hedges]
        unfold Takes
        simp only [List.map_cons, List.map_nil, List.mem_singleton,
          exists_eq_left, hplaced, hlinked.producer?] }

theorem HasOperator.producer? {op : Operator} (hwf : g.WellFormed) (hop : g.HasOperator n op)
    (ht : t ∈ op.outputs) :
    g.producer? t = some n := by
  obtain ⟨node, hnode, hkind⟩ := hasOperator_iff.mp hop
  refine hwf.producer?_iff.mpr ⟨node, hnode, ?_⟩
  rw [hkind]
  exact ht

theorem HasOperator.input_lt {op : Operator} (hwf : g.WellFormed) (hop : g.HasOperator n op)
    (ht : t ∈ op.inputs) :
    t.index < g.tensors.length := by
  obtain ⟨node, hnode, hkind⟩ := hasOperator_iff.mp hop
  refine hwf.tensor_lt hnode (List.mem_append_left _ ?_)
  rw [hkind]
  exact ht

theorem tensor?_of_extends {g' : Graph} (hextend : g.tensors <+: g'.tensors)
    (ht : t.index < g.tensors.length) :
    g'.tensor? t = g.tensor? t := by
  obtain ⟨later, hlater⟩ := hextend
  unfold tensor?
  rw [← hlater, List.getElem?_append_left ht]

namespace Rewired

variable {g₁ g₂ : Graph} {swaps : List Swap} {r : Swap}

theorem produced (hr : g.Rewired swaps g₁) (hwf : g.WellFormed) (ht : (g.producer? t).isSome) :
    (g₁.producer? t).isSome := by
  obtain ⟨source, hsource⟩ := Option.isSome_iff_exists.mp ht
  obtain ⟨maker, hmaker, hmade⟩ := hwf.producer?_iff.mp hsource
  have hold := hr.old source (hwf.stored source maker hmaker).2
  by_cases hmem : source ∈ swaps.map (·.id)
  · obtain ⟨r, hswap, rfl⟩ := List.mem_map.mp hmem
    obtain rfl := (hr.replaced r hswap t).mp hsource
    obtain ⟨op, hop, hmakes⟩ := hr.computed r hswap
    obtain ⟨n, _, hplaced⟩ := hr.placed r hswap op hop
    rw [hplaced.producer? hr.wellFormed hmakes]
    rfl
  · rw [if_neg hmem, hmaker] at hold
    exact Option.isSome_iff_exists.mpr ⟨source, hr.wellFormed.producer?_iff.mpr ⟨maker, hold, hmade⟩⟩

theorem read_lt (hr : g.Rewired swaps g₁) (hswap : r ∈ swaps) (hread : Chain.Reads r.chain t) :
    t.index < g₁.tensors.length := by
  obtain ⟨op, hop, ht⟩ := hread
  obtain ⟨n, _, hplaced⟩ := hr.placed r hswap op hop
  exact hplaced.input_lt hr.wellFormed ht

/-! ### One after the other -/

/-- Replacing one more composite gives no producer to the operands of the chains before. -/
theorem produced_iff (hr : g.Rewired swaps g₁) (hr' : g₁.Rewired [r] g₂) {r' : Swap}
    (hswap : r' ∈ swaps) (hread : Chain.Reads r'.chain t) :
    (g₂.producer? t).isSome ↔ (g₁.producer? t).isSome := by
  refine ⟨fun hsome => ?_, hr'.produced hr.wellFormed⟩
  have hlt := hr.read_lt hswap hread
  obtain ⟨m, hm⟩ := Option.isSome_iff_exists.mp hsome
  obtain ⟨node, hnode, hmade⟩ := hr'.wellFormed.producer?_iff.mp hm
  by_cases hold : m.index < g₁.nextNode
  · rw [hr'.old m hold] at hnode
    split at hnode
    · cases hnode
    · exact Option.isSome_iff_exists.mpr ⟨m, hr.wellFormed.producer?_iff.mpr ⟨node, hnode, hmade⟩⟩
  · obtain ⟨_, hmem, ⟨op, hop, hkind⟩ | ⟨u, hkind, hconst, _⟩⟩ :=
      hr'.brought m node (Nat.le_of_not_lt hold) hnode
    · rw [hkind] at hmade
      rcases hr'.results _ hmem op hop t hmade with rfl | hnew
      · rw [((hr'.replaced _ hmem _).mpr rfl)]
        rfl
      · omega
    · rw [hkind] at hmade
      obtain rfl := List.mem_singleton.mp hmade
      rw [tensor?_of_extends hr'.tensors hlt] at hconst
      exact hr.constants r' hswap t hread hconst

theorem ne_of_le (hid : r.id.index < g.nextNode) (hn : g.nextNode ≤ n.index) : n ≠ r.id := by
  rintro rfl
  omega

theorem node?_kept (hr' : g₁.Rewired [r] g₂) (hn : n ≠ r.id) (hlt : n.index < g₁.nextNode) :
    g₂.node? n = g₁.node? n := by
  rw [hr'.old n hlt, if_neg]
  simpa using hn

theorem hasOperator_kept (hwf : g₁.WellFormed) (hr' : g₁.Rewired [r] g₂) {op : Operator} (hn : n ≠ r.id)
    (hop : g₁.HasOperator n op) : g₂.HasOperator n op := by
  obtain ⟨node, hnode, _⟩ := hasOperator_iff.mp hop
  unfold HasOperator
  rw [hr'.node?_kept hn (hwf.stored n node hnode).2]
  exact hop

theorem le_of_hasOperator (hr' : g₁.Rewired [r] g₂) {op : Operator} (hop : op ∈ r.chain)
    (hplaced : g₂.HasOperator n op) : g₁.nextNode ≤ n.index := by
  obtain ⟨t, hsingle⟩ := List.length_eq_one_iff.mp (hr'.oneResult r (List.mem_singleton_self r) op hop)
  have ht : t ∈ op.outputs := by simp [hsingle]
  obtain ⟨m, hm, hplaced'⟩ := hr'.placed r (List.mem_singleton_self r) op hop
  have hsame := hplaced.producer? hr'.wellFormed ht
  rw [hplaced'.producer? hr'.wellFormed ht] at hsame
  cases hsame
  exact hm

theorem lt_of_hasOperator (hr : g.Rewired swaps g₁) (hr' : g₁.Rewired [r] g₂)
    (hid : r.id.index < g.nextNode) {r' : Swap} (hswap : r' ∈ swaps) {op : Operator}
    (hop : op ∈ r'.chain) (hplaced : g₂.HasOperator n op) :
    n.index < g₁.nextNode ∧ g₁.HasOperator n op := by
  obtain ⟨t, hsingle⟩ := List.length_eq_one_iff.mp (hr.oneResult r' hswap op hop)
  have ht : t ∈ op.outputs := by simp [hsingle]
  obtain ⟨m, hm, hplaced'⟩ := hr.placed r' hswap op hop
  have hsame := hplaced.producer? hr'.wellFormed ht
  rw [(hasOperator_kept hr.wellFormed hr' (ne_of_le hid hm) hplaced').producer? hr'.wellFormed ht]
    at hsame
  cases hsame
  obtain ⟨node, hnode, _⟩ := hasOperator_iff.mp hplaced'
  exact ⟨(hr.wellFormed.stored n node hnode).2, hplaced'⟩

theorem fed_trans (hr : g.Rewired swaps g₁) (hr' : g₁.Rewired [r] g₂)
    (hid : r.id.index < g.nextNode) (reader : NodeId) (t : TensorId) :
    g₂.Fed reader t ↔ reader.index < g.nextNode ∧ reader ∉ (swaps ++ [r]).map (·.id) ∧ g.Fed reader t ∨
      g.nextNode ≤ reader.index ∧ ∃ r' ∈ swaps ++ [r], g₂.Takes r'.chain r'.output reader t := by
  rw [hr'.fed, hr.fed]
  simp only [List.map_append, List.map_cons, List.map_nil, List.mem_append,
    List.mem_singleton, not_or, exists_eq_left, or_and_right, exists_or]
  have hnext := hr.next
  constructor
  · rintro (⟨hlt, hne, ⟨hold, hkept, hfed⟩ | ⟨hnew, r', hswap, op, hop, hplaced, ht, houtput, hsome⟩⟩
      | ⟨hnew, htakes⟩)
    · exact .inl ⟨hold, ⟨hkept, hne⟩, hfed⟩
    · refine .inr ⟨hnew,
        .inl ⟨r', hswap, op, hop, hasOperator_kept hr.wellFormed hr' hne hplaced, ht, houtput, ?_⟩⟩
      exact (hr.produced_iff hr' hswap ⟨op, hop, ht⟩).mpr hsome
    · exact .inr ⟨Nat.le_trans hnext hnew, .inr htakes⟩
  · rintro (⟨hold, ⟨hkept, hne⟩, hfed⟩
      | ⟨hnew, ⟨r', hswap, op, hop, hplaced, ht, houtput, hsome⟩ | ⟨op, hop, hplaced, htakes⟩⟩)
    · exact .inl ⟨Nat.lt_of_lt_of_le hold hnext, hne, .inl ⟨hold, hkept, hfed⟩⟩
    · obtain ⟨hlt, hplaced'⟩ := hr.lt_of_hasOperator hr' hid hswap hop hplaced
      refine .inl ⟨hlt, ne_of_le hid hnew, .inr ⟨hnew, r', hswap, op, hop, hplaced', ht, houtput, ?_⟩⟩
      exact (hr.produced_iff hr' hswap ⟨op, hop, ht⟩).mp hsome
    · exact .inr ⟨hr'.le_of_hasOperator hop hplaced, op, hop, hplaced, htakes⟩

theorem nameFor_extend (hwf : g.WellFormed) (hextend : g.tensors <+: g₁.tensors)
    (hnode : g.node? n = some node) :
    g₁.nameFor node.kind = g.nameFor node.kind := by
  unfold nameFor
  cases hhead : (node.kind.outputs ++ node.kind.inputs).head? with
  | none => rfl
  | some t =>
    have ht : t ∈ node.kind.inputs ++ node.kind.outputs := by
      have := List.mem_of_mem_head? hhead
      simp only [List.mem_append] at this ⊢
      exact this.symm
    simp only [Option.bind_some, tensor?_of_extends hextend (hwf.tensor_lt hnode ht)]

theorem labelled_trans (hr : g.Rewired swaps g₁) (hr' : g₁.Rewired [r] g₂)
    (hid : r.id.index < g.nextNode) :
    g₂.Labelled g.nextNode := by
  intro n node hn hnode
  by_cases hlt : n.index < g₁.nextNode
  · rw [hr'.node?_kept (ne_of_le hid hn) hlt] at hnode
    rw [nameFor_extend hr.wellFormed hr'.tensors hnode]
    exact hr.labelled n node hn hnode
  · exact hr'.labelled n node (Nat.le_of_not_lt hlt) hnode

theorem brought_trans (hr : g.Rewired swaps g₁) (hr' : g₁.Rewired [r] g₂)
    (hid : r.id.index < g.nextNode) (hn : g.nextNode ≤ n.index) (hnode : g₂.node? n = some node) :
    ∃ r' ∈ swaps ++ [r], g₂.Brought r'.chain node.kind := by
  by_cases hlt : n.index < g₁.nextNode
  · rw [hr'.node?_kept (ne_of_le hid hn) hlt] at hnode
    obtain ⟨r', hswap, hbrought⟩ := hr.brought n node hn hnode
    refine ⟨r', List.mem_append_left _ hswap, ?_⟩
    rcases hbrought with hop | ⟨t, hkind, hconst, hread⟩
    · exact .inl hop
    · refine .inr ⟨t, hkind, ?_, hread⟩
      rw [tensor?_of_extends hr'.tensors (hr.read_lt hswap hread)]
      exact hconst
  · obtain ⟨r', hswap, hbrought⟩ := hr'.brought n node (Nat.le_of_not_lt hlt) hnode
    exact ⟨r', List.mem_append_right _ hswap, hbrought⟩

theorem producer?_iff (hwf : g.WellFormed) (hr : g.Rewired swaps g₁) (hr' : g₁.Rewired [r] g₂)
    (hid : r.id.index < g.nextNode) :
    g.producer? t = some r.id ↔ t = r.output := by
  have hlast := List.mem_singleton_self r
  rw [← hr'.replaced r hlast t, hwf.producer?_iff, hr.wellFormed.producer?_iff]
  obtain ⟨node, hnode, _⟩ := hr.wellFormed.producer?_iff.mp ((hr'.replaced r hlast r.output).mpr rfl)
  have hold := hr.old r.id hid
  rw [hnode] at hold
  split at hold
  · cases hold
  · rw [hnode, ← hold]

theorem trans (hwf : g.WellFormed) (hr : g.Rewired swaps g₁) (hr' : g₁.Rewired [r] g₂)
    (hid : r.id.index < g.nextNode) :
    g.Rewired (swaps ++ [r]) g₂ := by
  have hforall {P : Swap → Prop} (hswaps : ∀ r ∈ swaps, P r) (hlast : P r) :
      ∀ r' ∈ swaps ++ [r], P r' := by
    intro r' hr'
    rcases List.mem_append.mp hr' with hmem | hmem
    · exact hswaps r' hmem
    · rw [List.mem_singleton.mp hmem]
      exact hlast
  have hlast := List.mem_singleton_self r
  have hlength := hr.tensors.length_le
  have hnext := hr.next
  exact
    { wellFormed := hr'.wellFormed
      flows := hr'.flows
      tensors := hr.tensors.trans hr'.tensors
      boundary := ⟨hr'.boundary.1.trans hr.boundary.1, hr'.boundary.2.trans hr.boundary.2⟩
      next := Nat.le_trans hnext hr'.next
      replaced := hforall hr.replaced fun t => producer?_iff hwf hr hr' hid
      oneResult := hforall hr.oneResult (hr'.oneResult r hlast)
      results := hforall hr.results fun op hop t ht =>
        (hr'.results r hlast op hop t ht).imp_right fun hnew => Nat.le_trans hlength hnew
      computed := hforall hr.computed (hr'.computed r hlast)
      old := by
        intro n hn
        rw [hr'.old n (Nat.lt_of_lt_of_le hn hnext), hr.old n hn]
        simp only [List.map_append, List.map_cons, List.map_nil, List.mem_append, List.mem_singleton]
        split <;> split <;> simp_all
      labelled := hr.labelled_trans hr' hid
      brought := fun n node hn hnode => hr.brought_trans hr' hid hn hnode
      placed := by
        refine hforall (fun r' hswap op hop => ?_) fun op hop => ?_
        · obtain ⟨n, hn, hplaced⟩ := hr.placed r' hswap op hop
          exact ⟨n, hn, hasOperator_kept hr.wellFormed hr' (ne_of_le hid hn) hplaced⟩
        · obtain ⟨n, hn, hplaced⟩ := hr'.placed r hlast op hop
          exact ⟨n, Nat.le_trans hnext hn, hplaced⟩
      constants := by
        refine hforall (fun r' hswap t hread hconst => ?_) (hr'.constants r hlast)
        rw [tensor?_of_extends hr'.tensors (hr.read_lt hswap hread)] at hconst
        exact hr'.produced hr.wellFormed (hr.constants r' hswap t hread hconst)
      fed := hr.fed_trans hr' hid }

end Rewired

end Graph

end GraphLowering
