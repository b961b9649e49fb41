import GraphLowering.Proofs.Invariant
import GraphLowering.Proofs.Linking
import GraphLowering.Proofs.Supply

/-!
# Lowering keeps the edges exact

The edges of a graph are exact if they are precisely the flow of data: there is an edge for every
tensor that a node reads and a node produces. While a composite is replaced that is not so. The
readers of its output are without an edge until the edges are restored, and then there has to be a
producer for them.

`Graph.Emitting` is what holds in between, after some operators of a chain: the edges are exact but
for the readers of the output. It survives the next operator because of what the chain is: an
operator reads only what is produced already (`Chain.Supplied`), so nothing waits for what it
computes, except for the output.
-/

namespace GraphLowering

namespace Graph

/-- The edges are precisely the flow of data, and a constant that is read has a node. -/
structure Exact (g : Graph) : Prop where
  wellFormed : g.WellFormed
  edges : ∀ e, e ∈ g.edges ↔ g.Dataflow e
  constants : ∀ id t, g.Reads id t → (g.tensor? t).any (·.isConstant) → (g.producer? t).isSome

theorem Exact.flows {g : Graph} (h : g.Exact) : g.Flows :=
  fun e he => (h.edges e).mp he

/-- A graph in which some operators are already in the place of a composite. The tensors are those
of the draft. -/
structure Emitting (g : Graph) (id : NodeId) (op : Composite) (draft : Graph) (h : Graph) : Prop where
  wellFormed : h.WellFormed
  tensors : ∀ t, h.tensor? t = draft.tensor? t
  next : g.nextNode ≤ h.nextNode
  nodes : ∀ n : NodeId, n.index < g.nextNode → h.node? n = (g.eraseNode id).node? n
  old : ∀ t source, h.producer? t = some source → source.index < g.nextNode →
    g.producer? t = some source
  edges : ∀ e, e ∈ h.edges ↔ h.Dataflow e ∧ ¬ (e.tensor = op.output ∧ e.target.index < g.nextNode)
  constants : ∀ reader t, h.Reads reader t → (h.tensor? t).any (·.isConstant) →
    (h.producer? t).isSome ∨ t = op.output ∧ reader.index < g.nextNode
  readers : ∀ (reader : NodeId) t, g.nextNode ≤ reader.index → h.Reads reader t →
    t ∈ op.inputs ∨ draft.DraftedConstant g.tensors.length t ∨
      ∃ m, h.producer? t = some m ∧ g.nextNode ≤ m.index ∧ m.index < reader.index
  makers : ∀ t m, h.producer? t = some m → g.nextNode ≤ m.index →
    (∃ node x, h.node? m = some node ∧ node.kind = .constant x) ∨
      t = op.output ∨ draft.DraftedResult g.tensors.length t

def Ready (g : Graph) (op : Composite) (h : Graph) (ready : List TensorId) : Prop :=
  ∀ t ∈ ready, t ∈ op.inputs ∨ ∃ m, h.producer? t = some m ∧ g.nextNode ≤ m.index

section Emitting

variable {g draft h : Graph} {id : NodeId} {node : Node} {op : Composite}

structure Replaceable (g : Graph) (id : NodeId) (node : Node) (op : Composite) : Prop where
  wellFormed : g.WellFormed
  found : g.node? id = some node
  kind : node.kind = .composite op
  output : op.output ∉ op.inputs

namespace Replaceable

theorem output_lt (hg : g.Replaceable id node op) : op.output.index < g.tensors.length :=
  hg.wellFormed.output_lt hg.found hg.kind

theorem input_lt (hg : g.Replaceable id node op) {t : TensorId} (ht : t ∈ op.inputs) :
    t.index < g.tensors.length :=
  hg.wellFormed.operand_lt hg.found hg.kind ht

theorem reads (hg : g.Replaceable id node op) {t : TensorId} (ht : t ∈ op.inputs) : g.Reads id t := by
  refine ⟨node, hg.found, ?_⟩
  rw [hg.kind]
  exact ht

theorem producer?_output (hg : g.Replaceable id node op) : g.producer? op.output = some id :=
  hg.wellFormed.producer?_output hg.found hg.kind

theorem eq_output (hg : g.Replaceable id node op) {t : TensorId} (ht : g.producer? t = some id) :
    t = op.output :=
  hg.wellFormed.eq_output hg.found hg.kind ht

theorem not_read (hg : g.Replaceable id node op) {t : TensorId}
    (hmade : t = op.output ∨ draft.DraftedResult g.tensors.length t) :
    t ∉ op.inputs ∧ ¬ draft.DraftedConstant g.tensors.length t := by
  rcases hmade with rfl | hresult
  · refine ⟨hg.output, ?_⟩
    rintro ⟨_, ⟨hnew, _⟩, _⟩
    have := hg.output_lt
    omega
  · refine ⟨fun hinput => ?_, fun hconst => hconst.not_result hresult⟩
    obtain ⟨_, ⟨hnew, _⟩, _⟩ := hresult
    have := hg.input_lt hinput
    omega

end Replaceable

namespace Emitting

theorem reads_old (hh : g.Emitting id op draft h) {reader : NodeId}
    (hold : reader.index < g.nextNode) {t : TensorId} (ht : h.Reads reader t) :
    g.Reads reader t ∧ reader ≠ id := by
  unfold Reads at ht
  rw [hh.nodes reader hold] at ht
  exact reads_eraseNode.mp ht

theorem read_lt (hh : g.Emitting id op draft h) (hwf : g.WellFormed) {reader : NodeId}
    (hold : reader.index < g.nextNode) {t : TensorId} (ht : h.Reads reader t) :
    t.index < g.tensors.length := by
  obtain ⟨other, hother, hmem⟩ := (hh.reads_old hold ht).1
  exact hwf.tensor_lt hother (List.mem_append_left _ hmem)

/-- What nothing produces yet and an operator of the chain computes is read by nothing, except for
the output. -/
theorem unread (hh : g.Emitting id op draft h) (hg : g.Replaceable id node op) {t : TensorId}
    (hmakes : t = op.output ∨ draft.DraftedResult g.tensors.length t)
    (hnone : h.producer? t = none) {reader : NodeId} (hreads : h.Reads reader t) :
    t = op.output ∧ reader.index < g.nextNode := by
  by_cases hold : reader.index < g.nextNode
  · have hlt := hh.read_lt hg.wellFormed hold hreads
    rcases hmakes with rfl | ⟨_, ⟨hnew, _⟩, _⟩
    · exact ⟨rfl, hold⟩
    · omega
  · exfalso
    obtain ⟨hnoInput, hnoConstant⟩ := hg.not_read hmakes
    rcases hh.readers reader t (Nat.le_of_not_lt hold) hreads with hinput | hconst | ⟨m, hm, _⟩
    · exact hnoInput hinput
    · exact hnoConstant hconst
    · rw [hnone] at hm
      cases hm

/-! ### The next operator of the chain -/

section Next

variable {o : Operator} {ready : List TensorId}

/-- All edges to the new node are added. No other node waited for what it brings, as that was unread
or had a producer. -/
theorem edges_insert (hh : g.Emitting id op draft h) (hg : g.Replaceable id node op)
    (haccepts : h.Accepts (.operator o) true)
    (hmakes : ∀ t ∈ o.outputs, t = op.output ∨ draft.DraftedResult g.tensors.length t) (e : Edge) :
    e ∈ (h.insert (.operator o) true).edges ↔
      (h.insert (.operator o) true).Dataflow e ∧
      ¬ (e.tensor = op.output ∧ e.target.index < g.nextNode) := by
  have hwf := hh.wellFormed
  have hgrows := haccepts.grows
  rw [mem_edges_insert hwf haccepts, hh.edges]
  constructor
  · rintro (⟨⟨hproducer, hreads⟩, hsettled⟩ | ⟨htarget, hflow⟩)
    · exact ⟨⟨hgrows.producer? hwf hproducer, hgrows.reads hwf hreads⟩, hsettled⟩
    · refine ⟨hflow, fun hwaiting => ?_⟩
      have hlt := hwaiting.2
      rw [htarget] at hlt
      exact absurd hh.next (Nat.not_le.mpr hlt)
  · rintro ⟨hflow, hsettled⟩
    by_cases htarget : e.target = ⟨h.nextNode⟩
    · exact .inr ⟨htarget, hflow⟩
    · have hread : h.Reads e.target e.tensor :=
        ((reads_insert hwf haccepts).mp hflow.2).resolve_right fun hnew => htarget hnew.1
      rcases producer?_insert hwf haccepts hflow.1 with hproducer | ⟨_, houtput⟩ | ⟨hnone, _, hconst, _⟩
      · exact .inl ⟨⟨hproducer, hread⟩, hsettled⟩
      · exact absurd (hh.unread hg (hmakes _ houtput) (haccepts.unproduced houtput) hread) hsettled
      · rcases hh.constants _ _ hread hconst with hsome | hwaiting
        · rw [hnone] at hsome
          cases hsome
        · exact absurd hwaiting hsettled

theorem constants_insert (hh : g.Emitting id op draft h) (haccepts : h.Accepts (.operator o) true)
    {reader : NodeId} {t : TensorId} (hread : (h.insert (.operator o) true).Reads reader t)
    (hconst : ((h.insert (.operator o) true).tensor? t).any (·.isConstant)) :
    ((h.insert (.operator o) true).producer? t).isSome ∨ t = op.output ∧ reader.index < g.nextNode := by
  have hwf := hh.wellFormed
  rw [tensor?_insert] at hconst
  rcases (reads_insert hwf haccepts).mp hread with hold | ⟨_, hinput⟩
  · rcases hh.constants reader t hold hconst with hsome | hwaiting
    · exact .inl (haccepts.grows.produced hwf hsome)
    · exact .inr hwaiting
  · exact .inl (producer?_insert_isSome hwf haccepts hinput hconst)

theorem readers_insert (hh : g.Emitting id op draft h) (hready : g.Ready op h ready)
    (haccepts : h.Accepts (.operator o) true)
    (hreads : ∀ t ∈ o.inputs, Chain.Available draft g.tensors.length ready t) {reader : NodeId}
    {t : TensorId} (hnew : g.nextNode ≤ reader.index)
    (hread : (h.insert (.operator o) true).Reads reader t) :
    t ∈ op.inputs ∨ draft.DraftedConstant g.tensors.length t ∨
      ∃ m, (h.insert (.operator o) true).producer? t = some m ∧
        g.nextNode ≤ m.index ∧ m.index < reader.index := by
  have hwf := hh.wellFormed
  have hgrows := haccepts.grows
  rcases (reads_insert hwf haccepts).mp hread with hold | ⟨rfl, hinput⟩
  · rcases hh.readers reader t hnew hold with hinput | hconst | ⟨m, hm, hmnew, hlt⟩
    · exact .inl hinput
    · exact .inr (.inl hconst)
    · exact .inr (.inr ⟨m, hgrows.producer? hwf hm, hmnew, hlt⟩)
  · rcases hreads t hinput with hmem | hconst
    · rcases hready t hmem with hinput | ⟨m, hm, hmnew⟩
      · exact .inl hinput
      · have hlt : m.index < h.nextNode := hwf.lt_of_live (producer?_eq_some.mp hm).2
        exact .inr (.inr ⟨m, hgrows.producer? hwf hm, hmnew, hlt⟩)
    · exact .inr (.inl hconst)

theorem makers_insert (hh : g.Emitting id op draft h) (haccepts : h.Accepts (.operator o) true)
    (hmakes : ∀ t ∈ o.outputs, t = op.output ∨ draft.DraftedResult g.tensors.length t)
    {t : TensorId} {m : NodeId} (hm : (h.insert (.operator o) true).producer? t = some m)
    (hnew : g.nextNode ≤ m.index) :
    (∃ node x, (h.insert (.operator o) true).node? m = some node ∧ node.kind = .constant x) ∨
      t = op.output ∨ draft.DraftedResult g.tensors.length t := by
  have hwf := hh.wellFormed
  rcases producer?_insert hwf haccepts hm with hproducer | ⟨_, houtput⟩ | ⟨_, _, _, hlater⟩
  · rcases hh.makers t m hproducer hnew with ⟨maker, x, hmaker, hkind⟩ | hmade
    · refine .inl ⟨maker, x, ?_, hkind⟩
      rw [haccepts.grows.node?_of_lt (hwf.stored m maker hmaker).2, hmaker]
    · exact .inr hmade
  · exact .inr (hmakes t houtput)
  · obtain ⟨maker, hmaker⟩ := isLive_iff.mp (producer?_eq_some.mp hm).2
    rcases node?_insert hwf haccepts hmaker with hold | ⟨rfl, _⟩ | ⟨_, x, hkind⟩
    · have := (hwf.stored m maker hold).2
      omega
    · exact absurd hlater (Nat.lt_irrefl _)
    · exact .inl ⟨maker, x, hmaker, hkind⟩

theorem insert (hh : g.Emitting id op draft h) (hg : g.Replaceable id node op)
    (hready : g.Ready op h ready) (haccepts : h.Accepts (.operator o) true)
    (hreads : ∀ t ∈ o.inputs, Chain.Available draft g.tensors.length ready t)
    (hmakes : ∀ t ∈ o.outputs, t = op.output ∨ draft.DraftedResult g.tensors.length t) :
    g.Emitting id op draft (h.insert (.operator o) true) where
  wellFormed := haccepts.grows.wellFormed hh.wellFormed
  tensors t := by rw [tensor?_insert, hh.tensors]
  next := Nat.le_trans hh.next haccepts.grows.nextNode_le
  nodes n hn := by rw [haccepts.grows.node?_of_lt (Nat.lt_of_lt_of_le hn hh.next), hh.nodes n hn]
  old t source hsource hold := by
    have hnext := hh.next
    rcases producer?_insert hh.wellFormed haccepts hsource with hproducer | ⟨rfl, _⟩ | ⟨_, _, _, hnew⟩
    · exact hh.old t source hproducer hold
    · exact absurd hold (Nat.not_lt.mpr hnext)
    · omega
  edges := hh.edges_insert hg haccepts hmakes
  constants _ _ := hh.constants_insert haccepts
  readers _ _ := hh.readers_insert hready haccepts hreads
  makers _ _ := hh.makers_insert haccepts hmakes

end Next

end Emitting

theorem Ready.insert {ready : List TensorId} {o : Operator} (hready : g.Ready op h ready)
    (hwf : h.WellFormed) (hnext : g.nextNode ≤ h.nextNode)
    (haccepts : h.Accepts (.operator o) true) :
    g.Ready op (h.insert (.operator o) true) (o.outputs ++ ready) := by
  intro t ht
  rcases List.mem_append.mp ht with hnew | hold
  · exact .inr ⟨_, producer?_insert_self hwf haccepts hnew, hnext⟩
  · rcases hready t hold with hinput | ⟨m, hm, hmnew⟩
    · exact .inl hinput
    · exact .inr ⟨m, haccepts.grows.producer? hwf hm, hmnew⟩

theorem Emits.emitting {chain : List Operator} {ids : List NodeId} {h' : Graph}
    (hemits : h.Emits chain ids h') (hg : g.Replaceable id node op) {ready : List TensorId}
    (hsupplied : Chain.Supplied draft g.tensors.length op.output ready chain)
    (hready : g.Ready op h ready) (hh : g.Emitting id op draft h) : g.Emitting id op draft h' := by
  induction hemits generalizing ready with
  | nil => exact hh
  | @cons h h' o rest ids hcontract haccepted _ ih =>
    have haccepts := Accepts.of_operator hcontract haccepted
    cases hsupplied with
    | cons _ hreads hmakes hnext =>
      exact ih hnext (hready.insert hh.wellFormed hh.next haccepts)
        (hh.insert hg hready haccepts hreads hmakes)

end Emitting

/-! ## From one exact graph to the next -/

section Lowers

variable {g draft g' : Graph} {id : NodeId} {node : Node} {op : Composite}

theorem Registers.eq (h : Registers g g') :
    g' = { g with tensors := g'.tensors, index := g'.index } := by
  induction h with
  | refl => rfl
  | tail _ hstep ih =>
    obtain ⟨t, _, rfl⟩ := hstep
    rw [ih]
    rfl

theorem Registers.producer? (h : Registers g g') (t : TensorId) : g'.producer? t = g.producer? t := by
  rw [h.eq]
  rfl

theorem Registers.node? (h : Registers g g') (n : NodeId) : g'.node? n = g.node? n := by
  rw [h.eq]
  rfl

theorem Registers.nextNode_eq (h : Registers g g') : g'.nextNode = g.nextNode := by
  rw [h.eq]

theorem Registers.reads (h : Registers g g') {n : NodeId} {t : TensorId} :
    g'.Reads n t ↔ g.Reads n t := by
  unfold Reads
  rw [h.node?]

theorem Exact.emitting (hg : g.Replaceable id node op) (hexact : g.Exact)
    (hregisters : (g.eraseNode id).Registers draft) :
    g.Emitting id op draft draft := by
  have hwf := hg.wellFormed
  have hgrows : Grows (fun _ _ => True) (g.eraseNode id) draft := hregisters.grows
  have hproducers : ∀ t source, draft.producer? t = some source ↔
      g.producer? t = some source ∧ source ≠ id := by
    intro t source
    rw [hregisters.producer?, producer?_eraseNode]
  have hreads : ∀ reader t, draft.Reads reader t ↔ g.Reads reader t ∧ reader ≠ id := by
    intro reader t
    rw [hregisters.reads, reads_eraseNode]
  have hlive : ∀ reader t, draft.Reads reader t → reader.index < g.nextNode := by
    intro reader t hread
    obtain ⟨other, hother, _⟩ := ((hreads reader t).mp hread).1
    exact (hwf.stored reader other hother).2
  exact
    { wellFormed := hgrows.wellFormed (hwf.eraseNode id)
      tensors := fun _ => rfl
      next := hgrows.nextNode_le
      nodes := fun n _ => hregisters.node? n
      old := fun t source hsource _ => ((hproducers t source).mp hsource).1
      edges := by
        intro e
        have hedges : draft.edges = (g.eraseNode id).edges := by rw [hregisters.eq]
        rw [hedges, mem_edges_eraseNode, hexact.edges]
        unfold Dataflow
        rw [hproducers, hreads]
        constructor
        · rintro ⟨⟨hsource, hread⟩, htarget, hid⟩
          refine ⟨⟨⟨hsource, hid⟩, hread, htarget⟩, fun hwaiting => ?_⟩
          rw [hwaiting.1, hg.producer?_output] at hsource
          exact hid (Option.some.inj hsource).symm
        · rintro ⟨⟨⟨hsource, hid⟩, hread, htarget⟩, _⟩
          exact ⟨⟨hsource, hread⟩, htarget, hid⟩
      constants := by
        intro reader t hread hconst
        obtain ⟨other, hother, hmem⟩ := ((hreads reader t).mp hread).1
        obtain ⟨tensor, htensor⟩ :=
          Option.isSome_iff_exists.mp
            (hwf.registered reader other hother t (List.mem_append_left _ hmem))
        have hknown : (g.eraseNode id).tensor? t = some tensor := htensor
        rw [hgrows.tensor? hknown, ← htensor] at hconst
        obtain ⟨source, hsource⟩ :=
          Option.isSome_iff_exists.mp (hexact.constants reader t ⟨other, hother, hmem⟩ hconst)
        by_cases hid : source = id
        · subst hid
          exact .inr ⟨hg.eq_output hsource, hlive reader t hread⟩
        · exact .inl (Option.isSome_iff_exists.mpr ⟨source, (hproducers t source).mpr ⟨hsource, hid⟩⟩)
      readers := fun reader t hnew hread => absurd (hlive reader t hread) (Nat.not_lt.mpr hnew)
      makers := by
        intro t m hm hnew
        have hlt := hwf.lt_of_live (producer?_eq_some.mp ((hproducers t m).mp hm).1).2
        exact absurd hlt (Nat.not_lt.mpr hnew) }

/-! ### The edges are restored -/

section Restored

variable {h : Graph} {allowed : Graph → Edge → Prop}

theorem Emitting.waiting (hh : g.Emitting id op draft h) (hg : g.Replaceable id node op)
    (hexact : g.Exact) {reader : NodeId} (hold : reader.index < g.nextNode)
    (hread : h.Reads reader op.output) :
    (op.output, reader) ∈ (g.detachment id node).successors := by
  obtain ⟨hread', hne⟩ := hh.reads_old hold hread
  have hflow : g.Dataflow ⟨id, reader, op.output⟩ := ⟨hg.producer?_output, hread'⟩
  exact mem_successors_detachment.mpr ⟨(hexact.edges _).mpr hflow, hne⟩

theorem Emitting.reads_of_successor (hh : g.Emitting id op draft h) (hexact : g.Exact)
    {reader : NodeId} {t : TensorId}
    (hsuccessor : (t, reader) ∈ (g.detachment id node).successors) : h.Reads reader t := by
  obtain ⟨he, hne⟩ := mem_successors_detachment.mp hsuccessor
  have hflow := (hexact.edges _).mp he
  unfold Reads
  rw [hh.nodes _ (hexact.wellFormed.lt_of_live hflow.live.2)]
  exact reads_eraseNode.mpr ⟨hflow.2, hne⟩

/-- With the edges that were restored the edges are exact: those that were left out are those that
are remembered. -/
theorem Emitting.exact (hh : g.Emitting id op draft h) (hg : g.Replaceable id node op)
    (hexact : g.Exact) (hwf : g'.WellFormed) (hlinked : h.Linked allowed g')
    (hproduced : ∀ t target, (t, target) ∈ (g.detachment id node).successors →
      h.isLive target → (h.producer? t).isSome)
    (hedges : ∀ e, e ∈ g'.edges ↔ e ∈ h.edges ∨ (g.detachment id node).Restores h e) : g'.Exact where
  wellFormed := hwf
  edges e := by
    rw [hedges, hh.edges, hlinked.dataflow_iff]
    constructor
    · rintro (⟨hflow, _⟩ | ⟨hproducer, ⟨_, _, hread⟩ | ⟨hsuccessor, _⟩⟩)
      · exact hflow
      · exact ⟨hproducer, hread⟩
      · exact ⟨hproducer, hh.reads_of_successor hexact hsuccessor⟩
    · intro hflow
      by_cases hpending : e.tensor = op.output ∧ e.target.index < g.nextNode
      · have hread := hflow.2
        rw [hpending.1] at hread
        refine .inr ⟨hflow.1, .inr ⟨?_, hread.live⟩⟩
        rw [hpending.1]
        exact hh.waiting hg hexact hpending.2 hread
      · exact .inl ⟨hflow, hpending⟩
  constants reader t hread hconst := by
    rw [hlinked.reads] at hread
    rw [hlinked.tensor?] at hconst
    rw [hlinked.producer?]
    rcases hh.constants reader t hread hconst with hsome | ⟨rfl, hlt⟩
    · exact hsome
    · exact hproduced _ _ (hh.waiting hg hexact hlt hread) hread.live

end Restored

structure Replaced (g : Graph) (id : NodeId) (op : Composite) (draft : Graph) (g' : Graph) : Prop where
  emitting : ∃ h, g.Emitting id op draft h ∧ (∀ n, g'.node? n = h.node? n) ∧
    ∀ t, g'.producer? t = h.producer? t
  exact : g'.Exact
  fed : ∀ e ∈ g.edges, g'.isLive e.target → (g'.producer? e.tensor).isSome

theorem Lowers.replaced {ids : List NodeId} (h : g.Lowers id ids g') (hexact : g.Exact)
    (houtput : ∀ node op, g.node? id = some node → node.kind = .composite op → op.output ∉ op.inputs) :
    ∃ node op draft, g.Replaceable id node op ∧ g.Replaced id op draft g' := by
  obtain ⟨node, op, hnode, hkind, hgrows, draft, chain, hregisters,
    hdrafts, emitted, hemits, hlinked, hproduced, hedges⟩ := h
  have hg : g.Replaceable id node op := ⟨hexact.wellFormed, hnode, hkind, houtput node op hnode hkind⟩
  have hstart := hexact.wellFormed.eraseNode id
  have hemitting : g.Emitting id op draft emitted :=
    hemits.emitting hg (hdrafts draft (List.prefix_refl _)).supplied
      (fun t ht => .inl ht) (hexact.emitting hg hregisters)
  have hexact' := hemitting.exact hg hexact (hgrows.wellFormed hstart) hlinked hproduced hedges
  refine ⟨node, op, draft, hg, ⟨emitted, hemitting, hlinked.node?, hlinked.producer?⟩,
    hexact', fun e he htarget => ?_⟩
  have hflow := (hexact.edges e).mp he
  by_cases hid : e.source = id
  · -- the composite produced the tensor, and the restoring of the edges has found another producer
    rw [hlinked.isLive] at htarget
    rw [hlinked.producer?]
    have hne : e.target ≠ id := by
      intro heq
      rw [isLive_eq_isSome, hemitting.nodes _ (hexact.wellFormed.lt_of_live hflow.live.2),
        node?_eraseNode, if_pos heq] at htarget
      cases htarget
    refine hproduced e.tensor e.target (mem_successors_detachment.mpr ⟨?_, hne⟩) htarget
    rw [← hid]
    exact he
  · rw [hgrows.producer? hstart (producer?_eraseNode.mpr ⟨hflow.1, hid⟩)]
    rfl

end Lowers

end Graph

end GraphLowering
