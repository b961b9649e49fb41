import GraphLowering.Proofs.Success

/-!
# What a chain brings into a graph

Inserting a chain adds its operators and nodes for the constants that they read
(`Graph.Emits.brought`), and edges to the operators: one for every operand that is produced in the
end (`Graph.Emits.fed`). There is one exception, the output of the composite, which nothing produces
when the operator is linked.
-/

namespace GraphLowering

namespace Graph

def Fed (g : Graph) (reader : NodeId) (t : TensorId) : Prop :=
  ∃ source, ⟨source, reader, t⟩ ∈ g.edges

def HasOperator (g : Graph) (n : NodeId) (op : Operator) : Prop :=
  (g.node? n).map (·.kind) = some (.operator op)

/-- The nodes from a number on have the names and marks that a lowering gives. -/
def Labelled (g : Graph) (first : Nat) : Prop :=
  ∀ n node, first ≤ n.index → g.node? n = some node →
    node.name = g.nameFor node.kind ∧ node.lowered = !node.kind.isConstant

variable {g h h' : Graph} {n : NodeId} {node : Node} {chain : List Operator}
  {ids : List NodeId} {t : TensorId} {first : Nat}

theorem hasOperator_iff {op : Operator} :
    g.HasOperator n op ↔ ∃ node, g.node? n = some node ∧ node.kind = .operator op := by
  unfold HasOperator
  rw [Option.map_eq_some_iff]

theorem nameFor_congr (htensors : ∀ t, h.tensor? t = g.tensor? t) (kind : NodeKind) :
    h.nameFor kind = g.nameFor kind := by
  unfold nameFor
  rw [funext htensors]

/-! ## Inserting a chain -/

theorem Labelled.pushNode (hlabelled : g.Labelled first) (kind : NodeKind) :
    (g.pushNode (g.nameFor kind) kind (!kind.isConstant)).Labelled first := by
  intro n node hn hnode
  rcases node?_of_pushNode hnode with ⟨_, rfl⟩ | ⟨_, hold⟩
  · exact ⟨rfl, rfl⟩
  · exact hlabelled n node hn hold

theorem Labelled.addEdge (hlabelled : g.Labelled first) (e : Edge) : (g.addEdge e).Labelled first := by
  intro n node hn hnode
  rw [node?_addEdge] at hnode
  rw [nameFor_congr (tensor?_addEdge g e)]
  exact hlabelled n node hn hnode

theorem Labelled.link (hlabelled : g.Labelled first) (reader : NodeId) (t : TensorId) :
    (g.link reader t).Labelled first := by
  rcases link_cases g reader t with ⟨source, _, hlink⟩ | ⟨_, _, hlink⟩ | ⟨_, _, hlink⟩
  · rw [hlink]
    exact hlabelled.addEdge _
  · rw [hlink]
    exact (hlabelled.pushNode (.constant t)).addEdge _
  · rw [hlink]
    exact hlabelled

theorem Labelled.insert (hlabelled : g.Labelled first) (op : Operator) :
    (g.insert (.operator op) true).Labelled first := by
  have hlinks : ∀ (ts : List TensorId) (k : Graph), k.Labelled first →
      (ts.foldl (·.link ⟨g.nextNode⟩) k).Labelled first := by
    intro ts
    induction ts with
    | nil => exact fun _ hk => hk
    | cons t rest ih => exact fun k hk => ih _ (hk.link _ t)
  exact hlinks _ _ (hlabelled.pushNode (.operator op))

namespace Emits

theorem labelled (hemits : h.Emits chain ids h') (hlabelled : h.Labelled first) :
    h'.Labelled first := by
  induction hemits with
  | nil => exact hlabelled
  | @cons _ _ op _ _ _ _ _ ih => exact ih (hlabelled.insert op)

theorem tensor? (hemits : h.Emits chain ids h') (t : TensorId) : h'.tensor? t = h.tensor? t := by
  induction hemits with
  | nil => rfl
  | cons _ _ _ ih => rw [ih, tensor?_insert]

end Emits

/-- A new node is an operator of the chain, or a constant that one of them reads. -/
def Brought (g : Graph) (chain : List Operator) (kind : NodeKind) : Prop :=
  (∃ op ∈ chain, kind = .operator op) ∨
    ∃ t, kind = .constant t ∧ (g.tensor? t).any (·.isConstant) ∧ Chain.Reads chain t

theorem Brought.tail {op : Operator} {kind : NodeKind} (hbrought : g.Brought chain kind) :
    g.Brought (op :: chain) kind := by
  rcases hbrought with ⟨o, ho, hkind⟩ | ⟨t, hkind, hconst, hreads⟩
  · exact .inl ⟨o, List.mem_cons_of_mem op ho, hkind⟩
  · exact .inr ⟨t, hkind, hconst, hreads.tail⟩

theorem brought_insert (hwf : g.WellFormed) {op : Operator} (haccepts : g.Accepts (.operator op) true)
    (hnode : (g.insert (.operator op) true).node? n = some node) :
    g.node? n = some node ∨ g.nextNode ≤ n.index ∧ g.Brought (op :: chain) node.kind := by
  rcases node?_insert hwf haccepts hnode with hold | ⟨rfl, hkind⟩ | ⟨hnew, t, hkind⟩
  · exact .inl hold
  · exact .inr ⟨Nat.le_refl _, .inl ⟨op, List.mem_cons_self, hkind⟩⟩
  · have hproducer : (g.insert (.operator op) true).producer? t = some n := by
      refine (haccepts.grows.wellFormed hwf).producer?_iff.mpr ⟨node, hnode, ?_⟩
      rw [hkind]
      exact List.mem_singleton_self t
    rcases producer?_insert hwf haccepts hproducer with hold | ⟨rfl, _⟩ | ⟨_, hmem, hconst, _⟩
    · exact absurd (hwf.lt_of_live (producer?_eq_some.mp hold).2) (by omega)
    · exact absurd hnew (Nat.lt_irrefl _)
    · exact .inr ⟨Nat.le_of_lt hnew, .inr ⟨t, hkind, hconst, .head hmem⟩⟩

namespace Emits

theorem brought (hemits : h.Emits chain ids h') (hwf : h.WellFormed) (hnode : h'.node? n = some node) :
    h.node? n = some node ∨ h.nextNode ≤ n.index ∧ h.Brought chain node.kind := by
  induction hemits with
  | nil => exact .inl hnode
  | @cons h h' op rest ids hcontract haccepted hrest ih =>
    have haccepts := Accepts.of_operator hcontract haccepted
    rcases ih (haccepts.grows.wellFormed hwf) hnode with hinserted | ⟨hnew, hbrought⟩
    · exact brought_insert hwf haccepts hinserted
    · refine .inr ⟨Nat.le_trans haccepts.grows.nextNode_le hnew, ?_⟩
      unfold Brought at hbrought
      simp only [tensor?_insert] at hbrought
      exact Brought.tail hbrought

theorem placed (hemits : h.Emits chain ids h') {op : Operator} (hop : op ∈ chain) :
    ∃ n : NodeId, h.nextNode ≤ n.index ∧ h'.HasOperator n op := by
  induction hemits with
  | nil => cases hop
  | @cons h h' head rest ids hcontract haccepted hrest ih =>
    rcases List.mem_cons.mp hop with rfl | hop
    · refine ⟨⟨h.nextNode⟩, Nat.le_refl _, ?_⟩
      unfold HasOperator
      rw [hrest.grown.node?_of_lt nextNode_lt_insert, node?_insert_self]
      rfl
    · obtain ⟨n, hn, hplaced⟩ := ih hop
      exact ⟨n, Nat.le_trans (Nat.le_of_lt nextNode_lt_insert) hn, hplaced⟩

theorem constants (hemits : h.Emits chain ids h') (hwf : h.WellFormed) (hread : Chain.Reads chain t)
    (hconst : (h.tensor? t).any (·.isConstant)) : (h'.producer? t).isSome := by
  induction hemits with
  | nil =>
    obtain ⟨_, hop, _⟩ := hread
    cases hop
  | @cons h h' op rest ids hcontract haccepted hrest ih =>
    have haccepts := Accepts.of_operator hcontract haccepted
    have hwf' := haccepts.grows.wellFormed hwf
    obtain ⟨o, ho, ht⟩ := hread
    rcases List.mem_cons.mp ho with rfl | ho
    · exact hrest.grown.produced hwf' (producer?_insert_isSome hwf haccepts ht hconst)
    · refine ih hwf' ⟨o, ho, ht⟩ ?_
      rw [tensor?_insert]
      exact hconst

/-- A tensor that has a producer had it before, or it is a result of the chain, or a constant that
the chain reads. -/
theorem producer?_cases (hemits : h.Emits chain ids h') (hwf : h.WellFormed)
    (hproducer : h'.producer? t = some n) :
    h.producer? t = some n ∨ (∃ op ∈ chain, t ∈ op.outputs) ∨
    Chain.Reads chain t ∧ (h.tensor? t).any (·.isConstant) := by
  obtain ⟨node, hnode, ht⟩ := (hemits.grown.wellFormed hwf).producer?_iff.mp hproducer
  rcases hemits.brought hwf hnode with hold | ⟨_, ⟨op, hop, hkind⟩ | ⟨u, hkind, hconst, hread⟩⟩
  · exact .inl (hwf.producer?_iff.mpr ⟨node, hold, ht⟩)
  · rw [hkind] at ht
    exact .inr (.inl ⟨op, hop, ht⟩)
  · rw [hkind] at ht
    rw [List.mem_singleton.mp ht]
    exact .inr (.inr ⟨hread, hconst⟩)

end Emits

/-- A new operator of the chain reads a tensor that is produced. The output does not count, unless
the operator computes it itself. -/
def Takes (g : Graph) (chain : List Operator) (output : TensorId)
    (reader : NodeId) (t : TensorId) : Prop :=
  ∃ op ∈ chain, g.HasOperator reader op ∧ t ∈ op.inputs ∧ (t = output → t ∈ op.outputs) ∧
    (g.producer? t).isSome

section Feeding

variable {draft : Graph} {output : TensorId} {ready : List TensorId}

/-- What an operator of the chain reads has a producer when the operator is linked if it has one in
the end, except for the output. -/
theorem Emits.produced_iff {op : Operator} (hwf : h.WellFormed)
    (haccepts : h.Accepts (.operator op) true)
    (hrest : (h.insert (.operator op) true).Emits chain ids h')
    (htensors : ∀ t, h.tensor? t = draft.tensor? t)
    (hsupplied : Chain.Supplied draft first output ready (op :: chain))
    (hthreaded : Chain.Threaded output (op :: chain))
    (hready : ∀ t ∈ ready, t.index < first ∨ (h.producer? t).isSome) (ht : t ∈ op.inputs) :
    ((h.insert (.operator op) true).producer? t).isSome ↔
    (t = output → t ∈ op.outputs) ∧ (h'.producer? t).isSome := by
  have hwf' := haccepts.grows.wellFormed hwf
  refine ⟨fun hsome => ⟨?_, hrest.grown.produced hwf' hsome⟩, fun ⟨houtput, hsome⟩ => ?_⟩
  · rintro rfl
    cases hthreaded with
    | last hmakes => simp [hmakes]
    | cons _ hnext =>
      -- a later operator computes the output, so it is still free
      obtain ⟨o, ho, hmade⟩ := hnext.made
      rw [((emits_iff hwf').mp ⟨ids, h', hrest⟩).2 o ho t hmade] at hsome
      cases hsome
  · cases hsupplied with
    | cons _ hreads _ hnext =>
      by_cases hself : t ∈ op.outputs
      · rw [producer?_insert_self hwf haccepts hself]
        rfl
      by_cases hconst : (h.tensor? t).any (·.isConstant)
      · exact producer?_insert_isSome hwf haccepts ht hconst
      rcases hreads t ht with hmem | ⟨tensor, ⟨_, hknown⟩, hconstant⟩
      · rcases hready t hmem with hold | hproduced
        · obtain ⟨source, hsource⟩ := Option.isSome_iff_exists.mp hsome
          rcases hrest.producer?_cases hwf' hsource with hbefore | ⟨o, ho, hmade⟩ | ⟨_, hconst'⟩
          · rw [hbefore]
            rfl
          · rcases hnext.made o ho t hmade with rfl | ⟨_, ⟨hnew, _⟩, _⟩
            · exact absurd (houtput rfl) hself
            · omega
          · rw [tensor?_insert] at hconst'
            exact absurd hconst' hconst
        · exact haccepts.grows.produced hwf hproduced
      · refine absurd ?_ hconst
        rw [htensors, hknown]
        exact hconstant

theorem fed_insert (hwf : g.WellFormed) {op : Operator} (haccepts : g.Accepts (.operator op) true)
    {reader : NodeId} :
    (g.insert (.operator op) true).Fed reader t ↔
      g.Fed reader t ∨ reader = ⟨g.nextNode⟩ ∧ t ∈ op.inputs ∧
      ((g.insert (.operator op) true).producer? t).isSome := by
  unfold Fed
  simp only [mem_edges_insert hwf haccepts, exists_or]
  refine or_congr Iff.rfl ?_
  constructor
  · rintro ⟨source, rfl, hproducer, hreads⟩
    refine ⟨rfl, ?_, Option.isSome_iff_exists.mpr ⟨source, hproducer⟩⟩
    rcases (reads_insert hwf haccepts).mp hreads with hold | ⟨_, hmem⟩
    · exact absurd (hwf.lt_of_live hold.live) (Nat.lt_irrefl _)
    · exact hmem
  · rintro ⟨rfl, hmem, hsome⟩
    obtain ⟨source, hsource⟩ := Option.isSome_iff_exists.mp hsome
    exact ⟨source, rfl, hsource, (reads_insert hwf haccepts).mpr (.inr ⟨rfl, hmem⟩)⟩

theorem Emits.fed (hemits : h.Emits chain ids h') (hwf : h.WellFormed)
    (htensors : ∀ t, h.tensor? t = draft.tensor? t)
    (hsupplied : Chain.Supplied draft first output ready chain)
    (hthreaded : chain ≠ [] → Chain.Threaded output chain)
    (hready : ∀ t ∈ ready, t.index < first ∨ (h.producer? t).isSome) (reader : NodeId)
    (t : TensorId) :
    h'.Fed reader t ↔ h.Fed reader t ∨ h.nextNode ≤ reader.index ∧ h'.Takes chain output reader t := by
  induction hemits generalizing ready with
  | nil =>
    refine ⟨.inl, ?_⟩
    rintro (hfed | ⟨_, _, hop, _⟩)
    · exact hfed
    · cases hop
  | @cons h h' op rest ids hcontract haccepted hrest ih =>
    have haccepts := Accepts.of_operator hcontract haccepted
    have hwf' := haccepts.grows.wellFormed hwf
    have hthreaded' : Chain.Threaded output (op :: rest) := hthreaded (List.cons_ne_nil op rest)
    have hproduced {t : TensorId} (ht : t ∈ op.inputs) :=
      hrest.produced_iff hwf haccepts htensors hsupplied hthreaded' hready ht
    have hhead : h'.HasOperator ⟨h.nextNode⟩ op := by
      unfold HasOperator
      rw [hrest.grown.node?_of_lt nextNode_lt_insert, node?_insert_self]
      rfl
    cases hsupplied with
    | cons _ _ _ hnext =>
      rw [ih hwf' (fun t => by rw [tensor?_insert, htensors]) hnext (fun hne => ?_) (fun u hu => ?_),
        fed_insert hwf haccepts, or_assoc]
      · refine or_congr Iff.rfl ⟨?_, ?_⟩
        · rintro (⟨rfl, ht, hsome⟩ | ⟨hnew, o, ho, htakes⟩)
          · obtain ⟨houtput, hsome⟩ := (hproduced ht).mp hsome
            exact ⟨Nat.le_refl _, op, List.mem_cons_self, hhead, ht, houtput, hsome⟩
          · exact ⟨Nat.le_trans (Nat.le_of_lt nextNode_lt_insert) hnew,
              o, List.mem_cons_of_mem op ho, htakes⟩
        · rintro ⟨hnew, o, _, hplaced, ht, houtput, hsome⟩
          obtain ⟨node, hnode, hkind⟩ := hasOperator_iff.mp hplaced
          -- a node of the chain is the one that was just inserted, or it belongs to an operator
          -- after it
          rcases hrest.brought hwf' hnode with hinserted | ⟨hlater, ⟨o', ho', hkind'⟩ | ⟨u, hkind', _⟩⟩
          · rcases node?_insert hwf haccepts hinserted with hold | ⟨rfl, hkind'⟩ | ⟨_, u, hkind'⟩
            · exact absurd (hwf.stored _ node hold).2 (Nat.not_lt.mpr hnew)
            · rw [hkind] at hkind'
              cases hkind'
              exact .inl ⟨rfl, ht, (hproduced ht).mpr ⟨houtput, hsome⟩⟩
            · rw [hkind] at hkind'
              cases hkind'
          · rw [hkind] at hkind'
            cases hkind'
            exact .inr ⟨hlater, o, ho', hplaced, ht, houtput, hsome⟩
          · rw [hkind] at hkind'
            cases hkind'
      · cases hthreaded' with
        | last _ => exact absurd rfl hne
        | cons _ hnext => exact hnext
      · rcases List.mem_append.mp hu with hmade | hold
        · rw [producer?_insert_self hwf haccepts hmade]
          exact .inr rfl
        · exact (hready u hold).imp_right fun hsome => haccepts.grows.produced hwf hsome

end Feeding

end Graph

end GraphLowering
