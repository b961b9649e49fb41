import GraphLowering.Proofs.Replacement

/-!
# Graphs that calls lead to

A caller starts with the empty graph and makes calls one after the other. What detaching a node
returned may be used by a later call. A call that is rejected leaves the graph as it is then, and
the next one goes on from there; after a fault there is no next call.

Two invariants hold along every run. The tables of the graph fit together (`Graph.WellFormed`),
whatever is called. If edges are never put in by hand, all edges lead along the flow of data, and so
do those that a detachment remembers (`World.Sound`).
-/

namespace GraphLowering

inductive Call where
  | addTensor (tensor : Tensor)
  | addInput (tensor : Tensor)
  | markOutput (tensor : TensorId)
  | addOperator (op : Operator) (lowered : Bool)
  | addComposite (op : Composite)
  | connect (source target : NodeId) (tensor : TensorId)
  | detach (id : NodeId)
  /-- Restores edges by what the given one of the detachments so far returned. -/
  | restore (captured : Nat)
  | lowerNode (id : NodeId) (options : Options)
  | lowerGraph (options : Options)

/-- What a caller has: a graph, and what the detachments so far returned. -/
structure World where
  session : Session
  captured : List Detachment

namespace World

abbrev graph (w : World) : Graph :=
  w.session.graph

def start : World :=
  ⟨⟨.empty, []⟩, []⟩

end World

namespace Call

def isConnect : Call → Bool
  | connect .. => true
  | _ => false

/-- The computation of a call. It returns what a later call may use. -/
def edit (captured : List Detachment) : Call → Edit (Option Detachment)
  | addTensor t => do
    let _ ← Edit.addTensor t
    return none
  | addInput t => do
    let _ ← Edit.addInput t
    return none
  | markOutput t => do
    let _ ← Edit.markOutput t
    return none
  | addOperator op lowered => do
    let _ ← Edit.addOperator op lowered
    return none
  | addComposite op => do
    let _ ← Edit.addComposite op
    return none
  | connect source target t => do
    Edit.connect source target t
    return none
  | detach id => do
    let (_, d) ← Edit.detach id
    return some d
  | restore i =>
    match captured[i]? with
    | none => return none
    | some d => do
      let _ ← Edit.restore d
      return none
  | lowerNode id options => do
    let _ ← Edit.lowerNode id options
    return none
  | lowerGraph options => do
    let _ ← Edit.lowerGraph options
    return none

def perform (w : World) (call : Call) : Option World :=
  match call.edit w.captured w.session with
  | .ok d s => some ⟨s, w.captured ++ d.toList⟩
  | .error (.rejected _) s => some ⟨s, w.captured⟩
  | .error (.fault _) _ => none

end Call

/-- The world after calls one after the other, if none of them ends in a fault. -/
def World.after (calls : List Call) : Option World :=
  calls.foldlM Call.perform .start

/-! ## Computations that end with a value or a rejection -/

/-- The session that an edit leaves when it succeeds or is rejected. -/
def Edit.leaves? {α : Type} (edit : Edit α) (s : Session) : Option Session :=
  match edit s with
  | .ok _ s' => some s'
  | .error (.rejected _) s' => some s'
  | .error (.fault _) _ => none

/-- Unless it ends in a fault, the computation has led the graph along a relation, and a value it
returns satisfies `post`. -/
def Settles {α : Type} (R : Graph → Graph → Prop) (m : Edit α) (s : Session)
    (post : α → Graph → Prop) : Prop :=
  match m s with
  | .ok a s' => R s.graph s'.graph ∧ post a s'.graph
  | .error (.rejected _) s' => R s.graph s'.graph
  | .error (.fault _) _ => True

namespace Settles

variable {α β : Type} {R : Graph → Graph → Prop} {m : Edit α}
  {f : α → Edit β} {s : Session} {P : α → Graph → Prop}
  {Q : β → Graph → Prop}

theorem of_ends {post : α → Session → Prop} (h : Ends (Edit.Along R) m s post)
    (hP : ∀ a s', post a s' → P a s'.graph) :
    Settles R m s P := by
  unfold Settles
  split
  · next a s' hrun => exact ⟨(h.of_ok hrun).1, hP a s' (h.of_ok hrun).2⟩
  · next hrun => exact h.of_error hrun
  · trivial

theorem bind [IsTrans Graph R] (hm : Settles R m s P)
    (hf : ∀ a s', R s.graph s'.graph → P a s'.graph → Settles R (f a) s' Q) :
    Settles R (m >>= f) s Q := by
  unfold Settles at hm
  cases hrun : m s with
  | ok a s' =>
    rw [hrun] at hm
    have hrest := hf a s' hm.1 hm.2
    unfold Settles at hrest ⊢
    rw [run_bind_ok hrun]
    split
    · next hnext =>
      rw [hnext] at hrest
      exact ⟨IsTrans.trans _ _ _ hm.1 hrest.1, hrest.2⟩
    · next hnext =>
      rw [hnext] at hrest
      exact IsTrans.trans _ _ _ hm.1 hrest
    · trivial
  | error stop s' =>
    unfold Settles
    rw [run_bind_error hrun]
    rw [hrun] at hm
    cases stop with
    | rejected e => exact hm
    | fault f => trivial

theorem of_leaves (h : Settles R m s P) {s' : Session} (hleaves : m.leaves? s = some s') :
    R s.graph s'.graph := by
  unfold Settles at h
  unfold Edit.leaves? at hleaves
  split at hleaves
  · next hrun =>
    rw [hrun] at h
    cases hleaves
    exact h.1
  · next hrun =>
    rw [hrun] at h
    cases hleaves
    exact h
  · cases hleaves

theorem pure [Std.Refl R] {a : α} (h : P a s.graph) : Settles R (Pure.pure a) s P :=
  ⟨Std.Refl.refl s.graph, h⟩

theorem foldlM {γ : Type} [Std.Refl R] [IsTrans Graph R] {step : α → γ → Edit α} (xs : List γ)
    (a : α) (h : ∀ a x s, Settles R (step a x) s fun _ _ => True) :
    Settles R (xs.foldlM step a) s fun _ _ => True := by
  induction xs generalizing a s with
  | nil => exact pure trivial
  | cons x rest ih =>
    rw [List.foldlM_cons]
    exact (h a x s).bind fun a' s' _ _ => ih a'

end Settles

end GraphLowering
