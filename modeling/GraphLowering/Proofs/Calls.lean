import GraphLowering.Proofs.Invariant

/-!
# What calls do to a graph

Every call changes the graph in some of six ways: things are added, with edges that start at the
producers of their tensors; an edge is put in by hand; a node is taken out; a model input or output
is listed; a refused replacement is undone. A relation that allows these six (`Graph.Allows`) is a
relation along which every call leads (`Call.edit_settles`), and so do any number of calls
(`World.leads`). What it preserves holds after any calls (`World.after_induction`).
-/

namespace GraphLowering

/-- The edge starts at the producer of its tensor. -/
def Graph.Sourced (g : Graph) (e : Edge) : Prop :=
  g.producer? e.tensor = some e.source

/-- A relation that allows all that a call may do. -/
class Graph.Allows (R : Graph → Graph → Prop) : Prop extends Std.Refl R, IsTrans Graph R where
  adding : ∀ {g g'}, Grows Sourced g g' → R g g'
  connecting : ∀ {g : Graph} {e}, g.isLive e.source → g.isLive e.target →
    (g.tensor? e.tensor).isSome → R g (g.addEdge e)
  detaching : ∀ (g : Graph) id, R g (g.eraseNode id)
  listingInput : ∀ {g : Graph} {t : TensorId}, (g.tensor? t).isSome →
    R g { g with inputs := g.inputs ++ [t] }
  listingOutput : ∀ {g : Graph} {t : TensorId}, (g.tensor? t).isSome →
    R g { g with outputs := g.outputs ++ [t] }
  refusing : ∀ {g : Graph} {id g'}, g.Refuses id g' → R g g'

namespace Edit

variable {R : Graph → Graph → Prop} [hR : Graph.Allows R] {s : Session}

open GraphLowering.Graph (Sourced)

theorem addTensor_settles (t : Tensor) : Ends (Along R) (addTensor t) s fun _ _ => True :=
  ((addTensor_ends t).mono fun _ _ _ _ => trivial).along fun _ h => hR.adding (Graph.Registers.grows h)

theorem insertNode_settles {kind : NodeKind} {lowered : Bool}
    (hcontract : ∀ op, kind = .operator op → op.check s.graph = .ok ()) :
    Ends (Along R) (insertNode kind lowered) s fun _ s' =>
      ∀ t ∈ kind.inputs ++ kind.outputs, (s'.graph.tensor? t).isSome := by
  have hinsert : Ends (Along (Graph.Grows Sourced)) (insertNode kind lowered) s _ :=
    insertNode_ends hcontract fun _ _ hflow _ => hflow.1
  refine (hinsert.mono fun _ s' hgrows ⟨haccepted, _⟩ t ht => ?_).along fun _ h => hR.adding h
  obtain ⟨x, hx⟩ := Option.isSome_iff_exists.mp ((Graph.insertError?_eq_none.mp haccepted).1 t ht)
  exact Option.isSome_iff_exists.mpr ⟨x, hgrows.tensor? hx⟩

theorem addInput_settles (t : Tensor) : Ends (Along R) (addInput t) s fun _ _ => True := by
  unfold addInput
  refine (addTensor_settles t).bind fun id s₁ _ _ =>
    Ends.bind (insertNode_settles ?_) fun _ s₂ _ hregistered => ?_
  · intro op hop
    cases hop
  · exact (modifyGraph_ends (hR.listingInput (hregistered id List.mem_cons_self))).bind
      fun _ _ _ _ => Ends.pure trivial

theorem markOutput_settles (t : TensorId) : Ends (Along R) (markOutput t) s fun _ _ => True := by
  unfold markOutput
  refine Ends.bind (insertNode_settles ?_) fun _ s₁ _ hregistered => ?_
  · intro op hop
    cases hop
  · exact (modifyGraph_ends (hR.listingOutput (hregistered t List.mem_cons_self))).bind
      fun _ _ _ _ => Ends.pure trivial

theorem addOperator_settles (op : Operator) (lowered : Bool) :
    Ends (Along R) (addOperator op lowered) s fun _ _ => True :=
  ((addOperator_ends fun _ _ hflow _ => hflow.1).mono fun _ _ _ _ => trivial).along
    fun _ h => hR.adding h

theorem connect_settles (source target : NodeId) (t : TensorId) :
    Ends (Along R) (connect source target t) s fun _ _ => True :=
  connect_ends (hR.connecting (e := ⟨source, target, t⟩))

theorem detach_settles (id : NodeId) : Ends (Along R) (detach id) s fun _ _ => True :=
  (detach_ends (hR.detaching _ id)).mono fun _ _ _ _ => trivial

theorem restore_settles (d : Detachment) : Ends (Along R) (restore d) s fun _ _ => True := by
  refine (restore_ends.mono fun _ _ _ _ => trivial).along fun _ hlinked => hR.adding ?_
  exact hlinked.grows.weaken fun _ _ hpermitted => hpermitted.1

theorem lowerNode_settles (id : NodeId) (options : Options) :
    Settles R (lowerNode id options) s fun _ _ => True := by
  obtain ⟨hok, hrejected⟩ := lowerNode_run id options s
  unfold Settles
  split
  · next hrun =>
    obtain ⟨_, _, _, _, hgrows, _⟩ := hok _ _ hrun
    refine ⟨hR.trans _ _ _ (hR.detaching _ id) (hR.adding ?_), trivial⟩
    exact hgrows.weaken fun _ _ hpermitted => hpermitted.1
  · next hrun => exact hR.refusing (hrejected _ _ hrun)
  · trivial

end Edit

theorem Call.edit_settles {R : Graph → Graph → Prop} [Graph.Allows R] (call : Call)
    (captured : List Detachment) (s : Session) :
    Settles R (call.edit captured) s fun _ _ => True := by
  have hreturn {α : Type} {m : Edit α} {d : α → Option Detachment}
      (hm : Settles R m s fun _ _ => True) :
      Settles R (do return d (← m)) s fun _ _ => True :=
    hm.bind fun _ _ _ _ => Settles.pure trivial
  cases call with
  | addTensor t => exact hreturn (.of_ends (Edit.addTensor_settles t) fun _ _ h => h)
  | addInput t => exact hreturn (.of_ends (Edit.addInput_settles t) fun _ _ h => h)
  | markOutput t => exact hreturn (.of_ends (Edit.markOutput_settles t) fun _ _ h => h)
  | addOperator op lowered =>
    exact hreturn (.of_ends (Edit.addOperator_settles op lowered) fun _ _ h => h)
  | addComposite op =>
    refine hreturn (.of_ends (Edit.insertNode_settles ?_) fun _ _ _ => trivial)
    intro op hop
    cases hop
  | connect source target t =>
    exact hreturn (.of_ends (Edit.connect_settles source target t) fun _ _ h => h)
  | detach id => exact hreturn (.of_ends (Edit.detach_settles id) fun _ _ h => h)
  | restore i =>
    cases hcaptured : captured[i]? with
    | none =>
      simp only [edit, hcaptured]
      exact Settles.pure trivial
    | some d =>
      simp only [edit, hcaptured]
      exact hreturn (.of_ends (Edit.restore_settles d) fun _ _ h => h)
  | lowerNode id options => exact hreturn (Edit.lowerNode_settles id options)
  | lowerGraph options =>
    exact hreturn (Edit.lowerGraph_settles fun id _ => Edit.lowerNode_settles id options)

/-- Calls one after the other lead along a relation along which each of them leads. -/
theorem World.leads_of_settles {R : Graph → Graph → Prop} [Std.Refl R] [IsTrans Graph R]
    {calls : List Call} {v w : World}
    (hcalls : ∀ call ∈ calls, ∀ captured s, Settles R (call.edit captured) s fun _ _ => True)
    (h : calls.foldlM Call.perform v = some w) : R v.graph w.graph := by
  induction calls generalizing v with
  | nil =>
    cases h
    exact Std.Refl.refl _
  | cons call rest ih =>
    obtain ⟨hhead, hcalls⟩ := List.forall_mem_cons.mp hcalls
    rw [List.foldlM_cons] at h
    obtain ⟨v₁, hperform, hrest⟩ := Option.bind_eq_some_iff.mp h
    exact IsTrans.trans _ _ _ (Call.perform_cases (hhead v.captured v.session) hperform).1
      (ih hcalls hrest)

theorem World.leads {R : Graph → Graph → Prop} [Graph.Allows R] {calls : List Call} {v w : World}
    (h : calls.foldlM Call.perform v = some w) : R v.graph w.graph :=
  World.leads_of_settles (fun call _ => call.edit_settles) h

/-- What holds of the empty graph and is kept by all that a call may do holds after any calls. -/
theorem World.after_induction (I : Graph → Prop) [Graph.Allows fun g g' => I g → I g']
    (hempty : I .empty) {calls : List Call} {w : World} (h : World.after calls = some w) :
    I w.graph := by
  have hleads : I World.start.graph → I w.graph := World.leads (R := fun g g' => I g → I g') h
  exact hleads hempty

end GraphLowering
