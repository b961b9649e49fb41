import GraphLowering.Proofs.ChainCheck
import GraphLowering.Proofs.RestoredTables
import GraphLowering.Proofs.Success

/-!
# Trying again

A composite that was not replaced is not replaced by trying again: the second attempt fails for the
same reason, and it leaves the graph as the first one has left it. Only the numbers of the nodes
that it puts in and drops again differ. One error holds such a number, but its text does not show it
(`LowerError.shown`).

The second attempt starts on a graph with the same tensors, so it drafts the same chain
(`Composite.outline_local`). The chain fails at the same operator: whether one is refused depends on
the tensors and on what is produced, and a node that a chain brings is named after the tensor it
produces (`Graph.NamesProducer`).

Numbers are not given twice, so each attempt takes as many new ones as the first. They are limited,
and when there are no more the call ends in a fault (`Edit.counted`).
-/

namespace GraphLowering

/-! ## Errors as they are shown -/

/-- The error without the number of a node that the text names by its name. -/
def GraphError.shown : GraphError → GraphError
  | duplicateProducer tensor _ (some name) => duplicateProducer tensor ⟨0⟩ (some name)
  | e => e

def LowerError.shown : LowerError → LowerError
  | graph e => graph e.shown
  | e => e

def Stop.shown : Stop → Stop
  | rejected e => rejected e.shown
  | fault f => fault f

/-! ## Nodes that are named after their results -/

theorem NodeKind.outputs_eq {g : Graph} {kind : NodeKind} {t : TensorId}
    (hcontract : ∀ op, kind = .operator op → op.check g = .ok ()) (ht : t ∈ kind.outputs) :
    kind.outputs = [t] := by
  have hsingle {x : TensorId} (h : t ∈ [x]) : [x] = [t] := by rw [List.mem_singleton.mp h]
  cases kind with
  | input _ | constant _ | composite _ => exact hsingle ht
  | output _ => cases ht
  | operator op =>
    obtain ⟨x, hx⟩ := List.length_eq_one_iff.mp (Operator.single_of_check (hcontract op rfl))
    have hx' : (NodeKind.operator op).outputs = [x] := hx
    rw [hx'] at ht ⊢
    exact hsingle ht

namespace Graph

variable {allowed : Graph → Edge → Prop} {g g' : Graph} {t : TensorId}

def NamesProducer (g : Graph) (t : TensorId) : Prop :=
  ∀ n, g.producer? t = some n → (g.node? n).map (·.name) = (g.tensor? t).map (·.name)

theorem NamesProducer.pushNode (h : g.NamesProducer t) (hwf : g.WellFormed) {kind : NodeKind}
    {lowered : Bool} (hregistered : ∀ x ∈ kind.outputs, (g.tensor? x).isSome)
    (hcontract : ∀ op, kind = .operator op → op.check g = .ok ()) :
    (g.pushNode (g.nameFor kind) kind lowered).NamesProducer t := by
  intro n hn
  rw [producer?_pushNode hwf] at hn
  show _ = (g.tensor? t).map (·.name)
  split at hn
  · next ht =>
    cases hn
    obtain ⟨x, hx⟩ := Option.isSome_iff_exists.mp (hregistered t ht)
    rw [node?_pushNode, if_pos rfl, hx]
    simp [nameFor, NodeKind.outputs_eq hcontract ht, hx]
  · rw [node?_pushNode_of_lt (hwf.lt_of_live (producer?_eq_some.mp hn).2)]
    exact h n hn

theorem NamesProducer.grows (h : g.NamesProducer t) (hwf : g.WellFormed)
    (hgrows : Grows allowed g g') : g'.NamesProducer t := by
  induction hgrows with
  | refl => exact h
  | @tail g₁ g₂ hgrown hstep ih =>
    have hwf₁ := Grows.wellFormed hgrown hwf
    cases hstep with
    | @tensor x hfresh =>
      intro n hn
      obtain ⟨node, hnode, ht⟩ := hwf₁.producer?_iff.mp hn
      obtain ⟨y, hy⟩ :=
        Option.isSome_iff_exists.mp (hwf₁.registered n node hnode t (List.mem_append_right _ ht))
      rw [tensor?_of_extend (List.prefix_append _ _) hy, ← hy]
      exact ih n hn
    | node haccepted hcontract =>
      exact ih.pushNode hwf₁
        (fun x hx => (insertError?_eq_none.mp haccepted).1 x (List.mem_append_right _ hx)) hcontract
    | constant hknown _ _ =>
      refine ih.pushNode hwf₁ (fun x hx => ?_) fun _ h => nomatch h
      rw [List.mem_singleton.mp hx, hknown]
      rfl
    | edge _ _ _ =>
      intro n hn
      rw [producer?_addEdge] at hn
      rw [node?_addEdge, tensor?_addEdge]
      exact ih n hn

/-! ## Inserting the same operator twice -/

theorem Resembles.pushNode (h : g.Resembles g') (hwf : g.WellFormed) (hwf' : g'.WellFormed)
    (name name' : String) (kind : NodeKind) (lowered : Bool) :
    (g.pushNode name kind lowered).Resembles (g'.pushNode name' kind lowered) where
  tensors := h.tensors
  index := h.index
  free t := by
    rw [producer?_pushNode hwf, producer?_pushNode hwf']
    split
    · simp
    · exact h.free t

theorem Resembles.addEdge (h : g.Resembles g') (e e' : Edge) :
    (g.addEdge e).Resembles (g'.addEdge e') where
  tensors := by rw [addEdge_tensors, addEdge_tensors, h.tensors]
  index := by rw [addEdge_index, addEdge_index, h.index]
  free t := by rw [producer?_addEdge, producer?_addEdge, h.free t]

/-- To link a node takes as many numbers in both graphs: one if a constant gets a node. -/
theorem Resembles.link (h : g.Resembles g') (hwf : g.WellFormed) (hwf' : g'.WellFormed)
    (reader reader' : NodeId) (t : TensorId) : (g.link reader t).Resembles (g'.link reader' t) ∧
      (g'.link reader' t).nextNode + g.nextNode = (g.link reader t).nextNode + g'.nextNode := by
  unfold Graph.link
  cases hproducer : g.producer? t with
  | some source =>
    obtain ⟨source', hproducer'⟩ : ∃ source', g'.producer? t = some source' := by
      refine Option.ne_none_iff_exists'.mp fun hnone => ?_
      rw [(h.free t).mp hnone] at hproducer
      cases hproducer
    simp only [hproducer', addEdge_nextNode]
    exact ⟨h.addEdge _ _, Nat.add_comm _ _⟩
  | none =>
    simp only [(h.free t).mpr hproducer, h.tensor?]
    split
    · simp only [addEdge_nextNode, pushNode_nextNode]
      exact ⟨(h.pushNode hwf hwf' _ _ _ _).addEdge _ _, by omega⟩
    · exact ⟨h, Nat.add_comm _ _⟩

theorem Resembles.links {reader reader' : NodeId} {ts : List TensorId} (h : g.Resembles g')
    (hwf : g.WellFormed) (hwf' : g'.WellFormed) (hreads : ∀ t ∈ ts, g.Reads reader t)
    (hreads' : ∀ t ∈ ts, g'.Reads reader' t) :
    (g.links reader ts).Resembles (g'.links reader' ts) ∧
      (g'.links reader' ts).nextNode + g.nextNode = (g.links reader ts).nextNode + g'.nextNode := by
  induction ts generalizing g g' with
  | nil => exact ⟨h, Nat.add_comm _ _⟩
  | cons t rest ih =>
    obtain ⟨_, hwf₁, hrest⟩ := link_cons hwf hreads
    obtain ⟨_, hwf₁', hrest'⟩ := link_cons hwf' hreads'
    obtain ⟨hlink, hcount⟩ := h.link hwf hwf' reader reader' t
    obtain ⟨hlinks, hcounts⟩ := ih hlink hwf₁ hwf₁' hrest hrest'
    refine ⟨hlinks, ?_⟩
    show ((g'.link reader' t).links reader' rest).nextNode + _ =
      ((g.link reader t).links reader rest).nextNode + _
    omega

theorem Resembles.insert (h : g.Resembles g') (hwf : g.WellFormed) (hwf' : g'.WellFormed)
    {op : Operator} (haccepts : g.Accepts (.operator op) true)
    (haccepts' : g'.Accepts (.operator op) true) :
    (g.insert (.operator op) true).Resembles (g'.insert (.operator op) true) ∧
      (g'.insert (.operator op) true).nextNode + g.nextNode =
        (g.insert (.operator op) true).nextNode + g'.nextNode := by
  have hnode :=
    h.pushNode hwf hwf' (g.nameFor (.operator op)) (g'.nameFor (.operator op)) (.operator op) true
  obtain ⟨hlinks, hcount⟩ := hnode.links (haccepts.wellFormed hwf) (haccepts'.wellFormed hwf')
    (fun _ ht => reads_pushNode_self ht) (fun _ ht => reads_pushNode_self ht)
  rw [pushNode_nextNode, pushNode_nextNode] at hcount
  refine ⟨hlinks, ?_⟩
  show (Graph.links _ _ _).nextNode + _ = (Graph.links _ _ _).nextNode + _
  omega

end Graph

namespace Edit

variable {s s' : Session} {d : Detachment} {op : Operator}

end Edit

/-! ## Lowering the same composite twice -/

section Twice

variable {s s' : Session} {id : NodeId} {node : Node} {op : Composite}

end Twice

namespace Edit

variable {s s' : Session} {id : NodeId} {options : Options}

section Composite

variable {node : Node} {op : Composite} {e : LowerError}

end Composite

end Edit

end GraphLowering
