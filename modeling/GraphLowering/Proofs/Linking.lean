import GraphLowering.Proofs.Insertion

/-!
# What inserting a node does to readers, producers and edges

A node that is inserted brings the tensors it reads and those it produces. On the way constant nodes
are added, which read nothing. So apart from the new node nothing reads more than before
(`Graph.reads_insert`). A tensor gets a producer if the new node or one of the constant nodes
produces it (`Graph.producer?_insert`). The edges that are added are all that lead along the flow of
data to the new node, and no others (`Graph.mem_edges_insert`).
-/

namespace GraphLowering

namespace Graph

variable {g : Graph} {reader : NodeId} {t x : TensorId}

/-! ## A node -/

theorem producer?_pushNode (hwf : g.WellFormed) (name : String) (kind : NodeKind) (lowered : Bool)
    (x : TensorId) :
    (g.pushNode name kind lowered).producer? x = if x ∈ kind.outputs
      then some ⟨g.nextNode⟩ else g.producer? x := by
  by_cases hx : x ∈ kind.outputs
  · rw [if_pos hx, producer?_pushNode_self hx]
  · rw [if_neg hx]
    ext id
    rw [producer?_eq_some, producer?_eq_some, get?_producers_pushNode, if_neg hx]
    -- a record never names the node that is to come
    have hlive : g.producers.get? x.index = some id →
        (g.pushNode name kind lowered).isLive id = g.isLive id := by
      intro hholder
      rw [isLive_eq_isSome, node?_pushNode_of_lt (hwf.recorded x id hholder).1]
      rfl
    constructor
    · rintro ⟨hholder, hid⟩
      rw [hlive hholder] at hid
      exact ⟨hholder, hid⟩
    · rintro ⟨hholder, hid⟩
      rw [← hlive hholder] at hid
      exact ⟨hholder, hid⟩

theorem reads_pushNode (hwf : g.WellFormed) (name : String) (kind : NodeKind) (lowered : Bool)
    {id : NodeId} :
    (g.pushNode name kind lowered).Reads id x ↔ g.Reads id x ∨ id = ⟨g.nextNode⟩ ∧ x ∈ kind.inputs := by
  unfold Reads
  rw [node?_pushNode]
  obtain ⟨i⟩ := id
  by_cases hid : i = g.nextNode
  · subst hid
    have hnone : g.node? ⟨g.nextNode⟩ = none := hwf.unnamed_nextNode (Nat.le_refl _)
    simp [hnone]
  · simp [hid]

/-! ## A link -/

/-- What a link adds: the edge to the producer, and before that the producer, if the tensor is a
constant without one. -/
theorem link_cases (g : Graph) (reader : NodeId) (t : TensorId) :
    (∃ source, g.producer? t = some source ∧ g.link reader t = g.addEdge ⟨source, reader, t⟩) ∨
      (g.producer? t = none ∧ (g.tensor? t).any (·.isConstant) ∧
        g.link reader t = (g.pushNode (g.nameFor (.constant t)) (.constant t) false).addEdge
          ⟨⟨g.nextNode⟩, reader, t⟩) ∨
      g.producer? t = none ∧ ¬ (g.tensor? t).any (·.isConstant) ∧ g.link reader t = g := by
  unfold link
  cases hproducer : g.producer? t with
  | some source => exact .inl ⟨source, rfl, rfl⟩
  | none =>
    by_cases hconst : (g.tensor? t).any (·.isConstant)
    · exact .inr (.inl ⟨rfl, hconst, if_pos hconst⟩)
    · exact .inr (.inr ⟨rfl, hconst, if_neg hconst⟩)

theorem reads_link (hwf : g.WellFormed) {id : NodeId} :
    (g.link reader t).Reads id x ↔ g.Reads id x := by
  rcases link_cases g reader t with ⟨source, _, hlink⟩ | ⟨_, _, hlink⟩ | ⟨_, _, hlink⟩
  · rw [hlink]
    unfold Reads
    rw [node?_addEdge]
  · rw [hlink]
    have hpush : (g.pushNode (g.nameFor (.constant t)) (.constant t) false).Reads id x ↔ _ :=
      reads_pushNode hwf _ _ _
    unfold Reads at hpush ⊢
    rw [node?_addEdge, hpush]
    simp [NodeKind.inputs]
  · rw [hlink]

theorem producer?_link (hwf : g.WellFormed) :
    (g.link reader t).producer? x =
      if x = t ∧ g.producer? t = none ∧ (g.tensor? t).any (·.isConstant)
        then some ⟨g.nextNode⟩ else g.producer? x := by
  rcases link_cases g reader t with ⟨source, hsource, hlink⟩
    | ⟨hnone, hconst, hlink⟩ | ⟨_, hconst, hlink⟩
  · rw [hlink, producer?_addEdge, if_neg]
    rintro ⟨_, hnone, _⟩
    rw [hsource] at hnone
    cases hnone
  · rw [hlink, producer?_addEdge, producer?_pushNode hwf]
    have hmem : x ∈ (NodeKind.constant t).outputs ↔ x = t := List.mem_singleton
    by_cases hx : x = t
    · rw [if_pos (hmem.mpr hx), if_pos ⟨hx, hnone, hconst⟩]
    · rw [if_neg fun h => hx (hmem.mp h), if_neg fun h => hx h.1]
  · rw [hlink, if_neg fun h => hconst h.2.2]

theorem mem_edges_link (hwf : g.WellFormed) {e : Edge} :
    e ∈ (g.link reader t).edges ↔
      e ∈ g.edges ∨ e.target = reader ∧ e.tensor = t ∧
      (g.link reader t).producer? t = some e.source := by
  have hedge : ∀ source, e = ⟨source, reader, t⟩ ↔
      e.target = reader ∧ e.tensor = t ∧ some source = some e.source := by
    intro source
    obtain ⟨s, c, y⟩ := e
    constructor
    · rintro ⟨⟩
      exact ⟨rfl, rfl, rfl⟩
    · rintro ⟨rfl, rfl, hsource⟩
      cases hsource
      rfl
  rw [producer?_link hwf]
  rcases link_cases g reader t with ⟨source, hsource, hlink⟩
    | ⟨hnone, hconst, hlink⟩ | ⟨hnone, hconst, hlink⟩
  · have hkept : ¬ (t = t ∧ g.producer? t = none ∧ (g.tensor? t).any (·.isConstant)) := by
      rw [hsource]
      rintro ⟨_, hnone, _⟩
      cases hnone
    rw [hlink, mem_edges_addEdge, if_neg hkept, hsource, hedge, or_comm]
  · rw [hlink, mem_edges_addEdge, if_pos ⟨rfl, hnone, hconst⟩, hedge, or_comm]
    rfl
  · rw [hlink, if_neg fun h => hconst h.2.2, hnone]
    simp

theorem node?_link {id : NodeId} {node : Node} (h : (g.link reader t).node? id = some node) :
    g.node? id = some node ∨ id.index = g.nextNode ∧ node.kind = .constant t := by
  rcases link_cases g reader t with ⟨source, _, hlink⟩ | ⟨_, _, hlink⟩ | ⟨_, _, hlink⟩
  · rw [hlink, node?_addEdge] at h
    exact .inl h
  · rw [hlink, node?_addEdge] at h
    rcases node?_of_pushNode h with ⟨rfl, rfl⟩ | ⟨_, hold⟩
    · exact .inr ⟨rfl, rfl⟩
    · exact .inl hold
  · rw [hlink] at h
    exact .inl h

/-! ## Any number of links -/

section Links

def links (g : Graph) (reader : NodeId) (ts : List TensorId) : Graph :=
  ts.foldl (·.link reader) g

variable {ts : List TensorId}

theorem link_grows_of_reads (hwf : g.WellFormed) (hreads : g.Reads reader t) :
    Grows (fun _ _ => True) g (g.link reader t) := by
  obtain ⟨node, hnode, _⟩ := id hreads
  exact link_grows hreads (hwf.stored reader node hnode).2 fun _ _ _ _ => trivial

theorem link_cons (hwf : g.WellFormed) (hreads : ∀ y ∈ t :: ts, g.Reads reader y) :
    Grows (fun _ _ => True) g (g.link reader t) ∧ (g.link reader t).WellFormed ∧
      ∀ y ∈ ts, (g.link reader t).Reads reader y := by
  have hgrows := link_grows_of_reads hwf (hreads t List.mem_cons_self)
  exact ⟨hgrows, hgrows.wellFormed hwf,
    fun y hy => hgrows.reads hwf (hreads y (List.mem_cons_of_mem t hy))⟩

theorem links_grows (hwf : g.WellFormed) (hreads : ∀ t ∈ ts, g.Reads reader t) :
    Grows (fun _ _ => True) g (g.links reader ts) := by
  induction ts generalizing g with
  | nil => exact .refl
  | cons t rest ih =>
    obtain ⟨hgrows, hwf', hrest⟩ := link_cons hwf hreads
    exact hgrows.trans (ih hwf' hrest)

theorem tensor?_links (x : TensorId) : (g.links reader ts).tensor? x = g.tensor? x := by
  induction ts generalizing g with
  | nil => rfl
  | cons t rest ih => exact (ih (g := g.link reader t)).trans (tensor?_link g reader t x)

theorem reads_links (hwf : g.WellFormed) (hreads : ∀ t ∈ ts, g.Reads reader t) {id : NodeId} :
    (g.links reader ts).Reads id x ↔ g.Reads id x := by
  induction ts generalizing g with
  | nil => rfl
  | cons t rest ih =>
    obtain ⟨_, hwf', hrest⟩ := link_cons hwf hreads
    exact (ih hwf' hrest).trans (reads_link hwf)

theorem producer?_links (hwf : g.WellFormed) (hreads : ∀ t ∈ ts, g.Reads reader t) {source : NodeId}
    (h : (g.links reader ts).producer? x = some source) :
    g.producer? x = some source ∨
      g.producer? x = none ∧ x ∈ ts ∧ (g.tensor? x).any (·.isConstant) ∧ g.nextNode ≤ source.index := by
  induction ts generalizing g with
  | nil => exact .inl h
  | cons t rest ih =>
    obtain ⟨hgrows, hwf', hrest⟩ := link_cons hwf hreads
    rcases ih hwf' hrest h with hold | ⟨hnone, hmem, hconst, hnew⟩
    · rw [producer?_link hwf] at hold
      split at hold
      · next hx =>
        obtain ⟨rfl, hnone, hconst⟩ := hx
        cases hold
        exact .inr ⟨hnone, List.mem_cons_self, hconst, Nat.le_refl _⟩
      · exact .inl hold
    · rw [tensor?_link] at hconst
      rw [producer?_link hwf] at hnone
      split at hnone
      · cases hnone
      · exact .inr ⟨hnone, List.mem_cons_of_mem t hmem, hconst, Nat.le_trans hgrows.nextNode_le hnew⟩

theorem producer?_link_isSome (reader : NodeId) (hwf : g.WellFormed)
    (hconst : (g.tensor? t).any (·.isConstant)) :
    ((g.link reader t).producer? t).isSome := by
  rw [producer?_link hwf]
  split
  · rfl
  · next h =>
    rw [Option.isSome_iff_ne_none]
    exact fun hnone => h ⟨rfl, hnone, hconst⟩

theorem producer?_links_isSome (hwf : g.WellFormed) (hreads : ∀ t ∈ ts, g.Reads reader t) (hx : x ∈ ts)
    (hconst : (g.tensor? x).any (·.isConstant)) : ((g.links reader ts).producer? x).isSome := by
  induction ts generalizing g with
  | nil => cases hx
  | cons t rest ih =>
    obtain ⟨_, hwf', hrest⟩ := link_cons hwf hreads
    rcases List.mem_cons.mp hx with rfl | hmem
    · exact (links_grows hwf' hrest).produced hwf' (producer?_link_isSome reader hwf hconst)
    · exact ih hwf' hrest hmem (by rw [tensor?_link]; exact hconst)

theorem mem_edges_links (hwf : g.WellFormed) (hreads : ∀ t ∈ ts, g.Reads reader t) {e : Edge} :
    e ∈ (g.links reader ts).edges ↔
      e ∈ g.edges ∨ e.target = reader ∧ e.tensor ∈ ts ∧
      (g.links reader ts).producer? e.tensor = some e.source := by
  induction ts generalizing g with
  | nil => simp [links]
  | cons t rest ih =>
    obtain ⟨_, hwf', hrest⟩ := link_cons hwf hreads
    have hlinks : g.links reader (t :: rest) = (g.link reader t).links reader rest := rfl
    -- the linked tensor keeps the producer that its link found or gave
    have hkeep : ∀ source, (g.link reader t).producer? t = some source ↔
        ((g.link reader t).links reader rest).producer? t = some source := by
      intro source
      constructor
      · exact (links_grows hwf' hrest).producer? hwf'
      · intro h
        rcases producer?_links hwf' hrest h with hold | ⟨hnone, _, hconst, _⟩
        · exact hold
        · rw [tensor?_link] at hconst
          have hsome := producer?_link_isSome reader hwf hconst
          rw [hnone] at hsome
          cases hsome
    rw [hlinks, ih hwf' hrest, mem_edges_link hwf]
    constructor
    · rintro ((he | ⟨htarget, ht, hproducer⟩) | ⟨htarget, hmem, hproducer⟩)
      · exact .inl he
      · rw [ht]
        exact .inr ⟨htarget, List.mem_cons_self, (hkeep _).mp hproducer⟩
      · exact .inr ⟨htarget, List.mem_cons_of_mem t hmem, hproducer⟩
    · rintro (he | ⟨htarget, hmem, hproducer⟩)
      · exact .inl (.inl he)
      · rcases List.mem_cons.mp hmem with ht | hmem
        · rw [ht] at hproducer
          exact .inl (.inr ⟨htarget, ht, (hkeep _).mpr hproducer⟩)
        · exact .inr ⟨htarget, hmem, hproducer⟩

theorem node?_links (hwf : g.WellFormed) (hreads : ∀ t ∈ ts, g.Reads reader t) {id : NodeId}
    {node : Node} (h : (g.links reader ts).node? id = some node) :
    g.node? id = some node ∨ g.nextNode ≤ id.index ∧ ∃ t ∈ ts, node.kind = .constant t := by
  induction ts generalizing g with
  | nil => exact .inl h
  | cons t rest ih =>
    obtain ⟨hgrows, hwf', hrest⟩ := link_cons hwf hreads
    rcases ih hwf' hrest h with hold | ⟨hnew, y, hy, hkind⟩
    · rcases node?_link hold with hold | ⟨hid, hkind⟩
      · exact .inl hold
      · exact .inr ⟨Nat.le_of_eq hid.symm, t, List.mem_cons_self, hkind⟩
    · exact .inr ⟨Nat.le_trans hgrows.nextNode_le hnew, y, List.mem_cons_of_mem t hy, hkind⟩

end Links

/-! ## An inserted node -/

section Insert

variable {kind : NodeKind} {lowered : Bool}

/-- A node that is accepted and, if it is an operator, keeps the contract of its kind. -/
structure Accepts (g : Graph) (kind : NodeKind) (lowered : Bool) : Prop where
  accepted : g.insertError? kind lowered = none
  contract : ∀ op, kind = .operator op → op.check g = .ok ()

theorem Accepts.of_operator {op : Operator} (hcheck : op.check g = .ok ())
    (haccepted : g.insertError? (.operator op) true = none) :
    g.Accepts (.operator op) true := by
  refine ⟨haccepted, ?_⟩
  rintro _ ⟨rfl⟩
  exact hcheck

theorem Accepts.unproduced (h : g.Accepts kind lowered) (hx : x ∈ kind.outputs) :
    g.producer? x = none :=
  producer?_of_claimError? ((insertError?_eq_none.mp h.accepted).2 x hx)

theorem Accepts.wellFormed (h : g.Accepts kind lowered) (hwf : g.WellFormed) :
    (g.pushNode (g.nameFor kind) kind lowered).WellFormed :=
  hwf.pushNode (insertError?_eq_none.mp h.accepted).1 h.contract fun _ ht => h.unproduced ht

theorem Accepts.grows (h : g.Accepts kind lowered) :
    Grows (fun _ _ => True) g (g.insert kind lowered) :=
  insert_grows h.accepted h.contract fun _ _ _ _ => trivial

theorem reads_insert (hwf : g.WellFormed) (h : g.Accepts kind lowered) {id : NodeId} :
    (g.insert kind lowered).Reads id x ↔ g.Reads id x ∨ id = ⟨g.nextNode⟩ ∧ x ∈ kind.inputs :=
  (reads_links (h.wellFormed hwf) fun _ ht => reads_pushNode_self ht).trans (reads_pushNode hwf _ _ _)

theorem tensor?_insert (x : TensorId) : (g.insert kind lowered).tensor? x = g.tensor? x :=
  tensor?_links x

theorem producer?_insert (hwf : g.WellFormed) (h : g.Accepts kind lowered) {source : NodeId}
    (hsource : (g.insert kind lowered).producer? x = some source) :
    g.producer? x = some source ∨ source = ⟨g.nextNode⟩ ∧ x ∈ kind.outputs ∨
      g.producer? x = none ∧ x ∈ kind.inputs ∧ (g.tensor? x).any (·.isConstant) ∧
      g.nextNode < source.index := by
  rcases producer?_links (h.wellFormed hwf) (fun _ ht => reads_pushNode_self ht) hsource
    with hold | hnew
  · rw [producer?_pushNode hwf] at hold
    split at hold
    · next hx =>
      cases hold
      exact .inr (.inl ⟨rfl, hx⟩)
    · exact .inl hold
  · obtain ⟨hnone, hmem, hconst, hlt⟩ := hnew
    rw [producer?_pushNode hwf] at hnone
    split at hnone
    · cases hnone
    · exact .inr (.inr ⟨hnone, hmem, hconst, hlt⟩)

theorem producer?_insert_self (hwf : g.WellFormed) (h : g.Accepts kind lowered)
    (hx : x ∈ kind.outputs) :
    (g.insert kind lowered).producer? x = some ⟨g.nextNode⟩ :=
  (links_grows (h.wellFormed hwf) fun _ ht => reads_pushNode_self ht).producer? (h.wellFormed hwf)
    (producer?_pushNode_self hx)

theorem producer?_insert_isSome (hwf : g.WellFormed) (h : g.Accepts kind lowered) (hx : x ∈ kind.inputs)
    (hconst : (g.tensor? x).any (·.isConstant)) : ((g.insert kind lowered).producer? x).isSome :=
  producer?_links_isSome (h.wellFormed hwf) (fun _ ht => reads_pushNode_self ht) hx hconst

/-- The edges that are added are those that lead along the flow of data to the new node. -/
theorem mem_edges_insert (hwf : g.WellFormed) (h : g.Accepts kind lowered) {e : Edge} :
    e ∈ (g.insert kind lowered).edges ↔
      e ∈ g.edges ∨ e.target = ⟨g.nextNode⟩ ∧ (g.insert kind lowered).Dataflow e := by
  have hlinks := mem_edges_links (h.wellFormed hwf) (fun _ ht => reads_pushNode_self ht) (e := e)
  have hunread : ∀ y, ¬ g.Reads ⟨g.nextNode⟩ y := by
    rintro y ⟨node, hnode, _⟩
    rw [hwf.unnamed_nextNode (Nat.le_refl _)] at hnode
    cases hnode
  refine hlinks.trans (or_congr Iff.rfl ?_)
  constructor
  · rintro ⟨htarget, hmem, hproducer⟩
    exact ⟨htarget, hproducer, (reads_insert hwf h).mpr (.inr ⟨htarget, hmem⟩)⟩
  · rintro ⟨htarget, hproducer, hreads⟩
    refine ⟨htarget, ?_, hproducer⟩
    rcases (reads_insert hwf h).mp hreads with hold | ⟨_, hmem⟩
    · rw [htarget] at hold
      exact absurd hold (hunread _)
    · exact hmem

theorem node?_insert (hwf : g.WellFormed) (h : g.Accepts kind lowered) {id : NodeId} {node : Node}
    (hnode : (g.insert kind lowered).node? id = some node) :
    g.node? id = some node ∨ id = ⟨g.nextNode⟩ ∧ node.kind = kind ∨
      g.nextNode < id.index ∧ ∃ t, node.kind = .constant t := by
  rcases node?_links (h.wellFormed hwf) (fun _ ht => reads_pushNode_self ht) hnode
    with hold | ⟨hnew, t, _, hkind⟩
  · rcases node?_of_pushNode hold with ⟨rfl, rfl⟩ | ⟨_, hold⟩
    · exact .inr (.inl ⟨rfl, rfl⟩)
    · exact .inl hold
  · exact .inr (.inr ⟨hnew, t, hkind⟩)

end Insert

end Graph

end GraphLowering
