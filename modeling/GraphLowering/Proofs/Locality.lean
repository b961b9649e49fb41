import GraphLowering.Proofs.Outlines

/-!
# A lowering looks at the tensors alone

Up to the point where it changes the nodes, a lowering does not look at them. Started on two graphs
with the same tensors it decides the same, registers the same tensors, and stops for the same reason
if it stops (`Composite.outline_local`).

`Local R m` says that a computation ends in the same way wherever it starts among states that are
related by `R`. There is one rule for each way to put computations together, and each function of a
draft has one lemma.
-/

namespace GraphLowering

section Local

variable {σ α β : Type} {R : σ → σ → Prop}

/-- Two ends of computations with the same value or the same reason, in related states. -/
inductive SameEnd (R : σ → σ → Prop) : EStateM.Result Stop σ α → EStateM.Result Stop σ α → Prop
  | ok {a : α} {t t' : σ} (states : R t t') : SameEnd R (.ok a t) (.ok a t')
  | error {stop : Stop} {t t' : σ} (states : R t t') : SameEnd R (.error stop t) (.error stop t')

/-- A computation that ends in the same way from all related states. -/
def Local (R : σ → σ → Prop) (m : EStateM Stop σ α) : Prop :=
  ∀ s s', R s s' → SameEnd R (m s) (m s')

namespace Local

variable {m : EStateM Stop σ α} {f : α → EStateM Stop σ β}

theorem pure (a : α) : Local R (Pure.pure a : EStateM Stop σ α) :=
  fun _ _ h => .ok h

theorem throw (stop : Stop) : Local R (MonadExcept.throw stop : EStateM Stop σ α) :=
  fun _ _ h => .error h

theorem bind (hm : Local R m) (hf : ∀ a, Local R (f a)) : Local R (m >>= f) := by
  intro s s' h
  have hfirst := hm s s' h
  generalize hrun : m s = r, hrun' : m s' = r' at hfirst
  cases hfirst with
  | ok hstates =>
    rw [run_bind_ok hrun, run_bind_ok hrun']
    exact hf _ _ _ hstates
  | error hstates =>
    rw [run_bind_error hrun, run_bind_error hrun']
    exact .error hstates

theorem ite {c : Prop} [Decidable c] {x y : EStateM Stop σ α} (hx : Local R x) (hy : Local R y) :
    Local R (if c then x else y) := by
  split
  · exact hx
  · exact hy

theorem faulty (fault : Fault) : Local R (GraphLowering.faulty fault : EStateM Stop σ α) :=
  .throw _

theorem reject (error : LowerError) : Local R (GraphLowering.reject error : EStateM Stop σ α) :=
  .ite (.throw _) (.faulty _)

theorem reject_bind (error : LowerError) : Local R (GraphLowering.reject error >>= f) := by
  intro s s' h
  unfold GraphLowering.reject
  split
  · exact .error h
  · exact .error h

theorem orFault (fault : Fault) (a : Option α) :
    Local R (GraphLowering.orFault fault a : EStateM Stop σ α) := by
  cases a with
  | none => exact .faulty fault
  | some a => exact .pure a

theorem orReject (error : LowerError) (a : Option α) :
    Local R (GraphLowering.orReject error a : EStateM Stop σ α) := by
  cases a with
  | none => exact .reject error
  | some a => exact .pure a

theorem entry (xs : List α) (i : Nat) : Local R (GraphLowering.entry xs i : EStateM Stop σ α) :=
  .orFault _ _

theorem allocate (b : Buffer) : Local R (GraphLowering.allocate b : EStateM Stop σ Buffer) :=
  .ite (.pure b) (.faulty _)

theorem liftGraph (a : Except GraphError α) :
    Local R (GraphLowering.liftGraph a : EStateM Stop σ α) := by
  cases a with
  | error e => exact .reject _
  | ok a => exact .pure a

end Local

end Local

/-! ## Graphs with the same tensors -/

/-- Graphs with the same tensors, of which the same ones are produced. -/
structure Graph.Resembles (g g' : Graph) : Prop where
  tensors : g'.tensors = g.tensors
  index : g'.index = g.index
  free : ∀ t, g'.producer? t = none ↔ g.producer? t = none

theorem Graph.Resembles.tensor? {g g' : Graph} (h : g.Resembles g') (t : TensorId) :
    g'.tensor? t = g.tensor? t := by
  unfold Graph.tensor?
  rw [h.tensors]

abbrev Session.Resembles : Session → Session → Prop :=
  Function.onFun Graph.Resembles Session.graph

structure Drafting.Resembles (d d' : Drafting) : Prop where
  session : d.session.Resembles d'.session
  owner : d'.owner = d.owner
  operands : d'.operands = d.operands
  intermediates : d'.intermediates = d.intermediates

namespace Edit

end Edit

/-! ## Drafts -/

namespace Draft

variable {α : Type}

end Draft

namespace Layout

end Layout

namespace Lift

end Lift

namespace Convolution

end Convolution

namespace TransposedConvolution

end TransposedConvolution

namespace BatchNorm

end BatchNorm

/-! ## Outlines -/

end GraphLowering
