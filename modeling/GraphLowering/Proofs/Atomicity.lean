import GraphLowering.Proofs.Invariant

/-!
# Changes that are made whole or not at all

A computation is *atomic* in a session if it leaves the session as it is whenever it stops
(`Edit.Atomic`). The calls that change a graph in one place are atomic: they look at everything that
may be wrong before they change anything. Only the registration of a model input makes two changes,
each of which may be rejected on its own. In a graph whose tables fit together the second is never
rejected after the first: the tensor is new then, and what is recorded of producers never stands for
a tensor to come.
-/

namespace GraphLowering

namespace Edit

variable {α β : Type} {m : Edit α} {f : α → Edit β} {s s' : Session}

/-- Started in the session, the computation changes nothing if it stops. -/
def Atomic (m : Edit α) (s : Session) : Prop :=
  ∀ stop s', m s = .error stop s' → s' = s

namespace Atomic

theorem of_ends {P : α → Session → Prop} (h : Ends Eq m s P) : Atomic m s :=
  fun _ _ hrun => (h.of_error hrun).symm

theorem of_ok {a : α} (h : m s = .ok a s') : Atomic m s := by
  intro stop t hrun
  rw [h] at hrun
  cases hrun

theorem read {a : α} (hm : m s = .ok a s) (hf : Atomic (f a) s) : Atomic (m >>= f) s := by
  intro stop t hrun
  rw [run_bind_ok hm] at hrun
  exact hf stop t hrun

/-- Everything may stop before the first change, and nothing after it. -/
theorem bind (hm : Atomic m s) (hf : ∀ a s', m s = .ok a s' → ∃ b s'', f a s' = .ok b s'') :
    Atomic (m >>= f) s := by
  intro stop t hrun
  cases hfirst : m s with
  | error stop' t' =>
    rw [run_bind_error hfirst] at hrun
    cases hrun
    exact hm _ _ hfirst
  | ok a s' =>
    obtain ⟨b, s'', hrest⟩ := hf a s' hfirst
    rw [run_bind_ok hfirst, hrest] at hrun
    cases hrun

theorem andThen (hm : Atomic m s) (hf : ∀ a s', ∃ b s'', f a s' = .ok b s'') : Atomic (m >>= f) s :=
  hm.bind fun a s' _ => hf a s'

theorem andReturn (hm : Atomic m s) (g : α → β) : Atomic (do return g (← m)) s :=
  hm.andThen fun _ _ => ⟨_, _, rfl⟩

theorem reject (error : LowerError) : Atomic (GraphLowering.reject error : Edit α) s :=
  .of_ends (P := fun _ _ => True) (reject_ends error)

end Atomic

/-! ## One change -/

theorem addTensor_atomic (tensor : Tensor) (s : Session) : Atomic (addTensor tensor) s := by
  unfold addTensor
  refine .read rfl ?_
  split
  · exact .reject _
  · exact .of_ok rfl

theorem insertNode_atomic (kind : NodeKind) (lowered : Bool) (s : Session) :
    Atomic (insertNode kind lowered) s := by
  cases haccepted : s.graph.insertError? kind lowered with
  | none =>
    obtain ⟨events, hrun⟩ := insertNode_run haccepted
    exact .of_ok hrun
  | some e =>
    intro stop s' hrun
    rw [insertNode_rejected haccepted] at hrun
    exact reject_state hrun

theorem markOutput_atomic (tensor : TensorId) (s : Session) : Atomic (markOutput tensor) s :=
  (insertNode_atomic _ _ s).andThen fun _ _ => ⟨_, _, rfl⟩

theorem addOperator_atomic (op : Operator) (lowered : Bool) (s : Session) :
    Atomic (addOperator op lowered) s := by
  unfold addOperator
  refine .read rfl ?_
  cases hcheck : op.check s.graph with
  | ok => exact .read rfl (insertNode_atomic _ _ s)
  | error e => exact .of_ends (P := fun _ _ => True) (reject_bind_ends _)

theorem connect_atomic (source target : NodeId) (tensor : TensorId) (s : Session) :
    Atomic (connect source target tensor) s := by
  unfold connect
  refine .read rfl ?_
  split
  · exact .reject _
  · cases htensor : s.graph.tensor tensor with
    | ok t => exact .of_ok rfl
    | error e => exact .of_ends (P := fun _ _ => True) (reject_bind_ends _)

theorem detach_atomic (id : NodeId) (s : Session) : Atomic (detach id) s := by
  unfold detach
  refine .read rfl ?_
  split
  · exact .reject _
  · exact .of_ok rfl

/-! ## Two changes -/

theorem insertError?_new_input {g : Graph} (hwf : g.WellFormed) (tensor : Tensor) :
    (g.pushTensor tensor).insertError? (.input ⟨g.tensors.length⟩) false = none := by
  refine Graph.insertError?_eq_none.mpr ⟨fun t ht => ?_, fun t ht => ?_⟩
  · obtain rfl : t = ⟨g.tensors.length⟩ := List.mem_singleton.mp ht
    simp [Graph.tensor?, Graph.pushTensor]
  · obtain rfl : t = ⟨g.tensors.length⟩ := List.mem_singleton.mp ht
    have hunrecorded : g.producers.get? g.tensors.length = none := by
      cases hrecord : g.producers.get? g.tensors.length with
      | none => rfl
      | some id => exact absurd (hwf.recorded ⟨g.tensors.length⟩ id hrecord).2 (Nat.lt_irrefl _)
    unfold Graph.claimError?
    rw [show (g.pushTensor tensor).producers = g.producers from rfl, hunrecorded]

theorem addInput_atomic (hwf : s.graph.WellFormed) (tensor : Tensor) : Atomic (addInput tensor) s := by
  refine (addTensor_atomic tensor s).bind fun id s' hadded => ?_
  obtain ⟨_, _, rfl, hs'⟩ := (addTensor_ends tensor).of_ok hadded
  have haccepted : s'.graph.insertError? (.input ⟨s.graph.tensors.length⟩) false = none := by
    rw [hs']
    exact insertError?_new_input hwf tensor
  obtain ⟨events, hrun⟩ := insertNode_run haccepted
  exact ⟨_, _, run_bind_ok hrun⟩

end Edit

/-! ## Calls -/

/-- Whether a call registers a tensor or inserts a node, adds an edge, or takes a node out. -/
def Call.isElementary : Call → Bool
  | addTensor .. | addInput .. | markOutput .. | addOperator ..
      | addComposite .. | connect .. | detach .. =>
    true
  | restore .. | lowerNode .. | lowerGraph .. => false

/-- After any calls, edges put in by hand included: an insertion, a new edge or a detachment that is
refused leaves the session, and with it all tables of the graph and the number of the next node, as
it was. -/
theorem World.elementary_call_atomic {calls : List Call} {w : World} {call : Call} {stop : Stop}
    {s : Session} (hcalls : World.after calls = some w) (hcall : call.isElementary = true)
    (hstop : call.edit w.captured w.session = .error stop s) : s = w.session := by
  suffices hatomic : Edit.Atomic (call.edit w.captured) w.session from hatomic stop s hstop
  cases call with
  | addTensor t => exact (Edit.addTensor_atomic t _).andReturn _
  | addInput t => exact (Edit.addInput_atomic (World.after_sound hcalls).wellFormed t).andReturn _
  | markOutput t => exact (Edit.markOutput_atomic t _).andReturn _
  | addOperator op lowered => exact (Edit.addOperator_atomic op lowered _).andReturn _
  | addComposite op => exact (Edit.insertNode_atomic (.composite op) false _).andReturn _
  | connect source target t => exact (Edit.connect_atomic source target t _).andReturn _
  | detach id => exact (Edit.detach_atomic id _).andThen fun _ _ => ⟨_, _, rfl⟩
  | restore i => cases hcall
  | lowerNode id options => cases hcall
  | lowerGraph options => cases hcall

/-- After an edge put in by hand, a lowering that was rolled back and a detachment: the node that is
gone still claims its tensor, so that it cannot be inserted once more, and a name that is taken
cannot be that of a new input. -/
theorem World.elementary_call_atomic_reinserted :
    ∃ w e s e' s', World.after (convolutionCalls .i32 ++
        [.connect ⟨0⟩ ⟨1⟩ ⟨0⟩, .lowerNode ⟨2⟩ .default, .detach ⟨2⟩]) = some w ∧
        w.graph.nextNode = 7 ∧
      (Call.addComposite (.convolution ⟨⟨0⟩, ⟨1⟩, none, ⟨2⟩, .unit 2, .none⟩)).edit
        w.captured w.session =
        .error (.rejected e) s ∧ s = w.session ∧
      (Call.addInput (.computed "y" ⟨.f32, ⟨[1]⟩⟩ none)).edit w.captured w.session =
        .error (.rejected e') s' ∧
        s' = w.session := by
  have hrun : ((World.after (convolutionCalls .i32 ++
      [.connect ⟨0⟩ ⟨1⟩ ⟨0⟩, .lowerNode ⟨2⟩ .default, .detach ⟨2⟩])).bind fun w =>
      (((Call.addComposite (.convolution ⟨⟨0⟩, ⟨1⟩, none, ⟨2⟩, .unit 2, .none⟩)).edit
          w.captured).rejection? w.session).bind fun _ =>
      (((Call.addInput (.computed "y" ⟨.f32, ⟨[1]⟩⟩ none)).edit w.captured).rejection? w.session).map
          fun _ =>
        w.graph.nextNode) = some 7 := by
    decide +kernel
  obtain ⟨w, hw, hcalls⟩ := Option.bind_eq_some_iff.mp hrun
  obtain ⟨⟨e, s⟩, hcomposite, hrest⟩ := Option.bind_eq_some_iff.mp hcalls
  obtain ⟨⟨e', s'⟩, hinput, hnext⟩ := Option.map_eq_some_iff.mp hrest
  have hcomposite := Edit.rejection?_eq_some hcomposite
  have hinput := Edit.rejection?_eq_some hinput
  exact ⟨w, e, s, e', s', hw, hnext, hcomposite, elementary_call_atomic hw rfl hcomposite, hinput,
    elementary_call_atomic hw rfl hinput⟩

end GraphLowering
