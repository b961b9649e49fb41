import GraphLowering.Proofs.Acceptance
import GraphLowering.Proofs.ChainCheck
import GraphLowering.Proofs.WholeGraph

/-!
# Why a lowering stops

Once a chain is drafted, putting it in its place ends in no fault: every tensor that is looked up is
registered, also those of edges that were put in by hand (`Graph.Tracked`), and the errors name
element types of the graph. What is left are the faults of the draft (`Edit.lowerNode_safe`). Of
these only two can happen in a graph whose element types have texts and whose quantized axes can be
moved: a bias that does not fit into memory, and a convolution with more channels in all groups than
there are sizes.

A rejection is never about a chain that does not hang together, because the check of chains passes.
-/

namespace GraphLowering

/-! ## Errors of the graph have texts -/

namespace Graph

variable {g g' : Graph}

theorem printable_iff : g.printable ↔ ∀ id t, g.tensor? id = some t → t.elementType.printable := by
  unfold printable tensor?
  rw [List.all_eq_true]
  constructor
  · intro h id t ht
    exact h t (List.mem_of_getElem? ht)
  · intro h t ht
    obtain ⟨i, hi⟩ := List.mem_iff_getElem?.mp ht
    exact h ⟨i⟩ t hi

theorem printable_congr (h : ∀ id, g'.tensor? id = g.tensor? id) : g'.printable ↔ g.printable := by
  simp only [printable_iff, h]

theorem printable_of_widths (h : ∀ t ∈ g.tensors, t.elementType.width.toNat < 32) : g.printable := by
  refine List.all_eq_true.mpr fun t ht => ?_
  have hwidth := h t ht
  unfold ElementType.printable ElementType.bits
  rw [Bool.or_eq_true, decide_eq_true_eq]
  exact .inr (by omega)

end Graph

/-- If the graph answers with an error, the error has a text. -/
def Prints {α : Type} (answer : Except GraphError α) : Prop :=
  ∀ e, answer = .error e → (LowerError.graph e).printable

namespace Prints

variable {α β : Type}

theorem ok {a : α} : Prints (.ok a) :=
  fun _ h => nomatch h

theorem error {e : GraphError} (h : (LowerError.graph e).printable) :
    Prints (.error e : Except GraphError α) := by
  rintro _ ⟨rfl⟩
  exact h

theorem bind {answer : Except GraphError α} {f : α → Except GraphError β} (h : Prints answer)
    (hf : ∀ a, answer = .ok a → Prints (f a)) :
    Prints (answer >>= f) := by
  cases answer with
  | error e =>
    rintro _ ⟨rfl⟩
    exact h e rfl
  | ok a => exact hf a rfl

theorem ite {c : Prop} [Decidable c] {x y : Except GraphError α} (hx : c → Prints x)
    (hy : ¬ c → Prints y) :
    Prints (if c then x else y) := by
  split
  · next hc => exact hx hc
  · next hc => exact hy hc

theorem forM {xs : List β} {f : β → Except GraphError Unit} (h : ∀ x ∈ xs, Prints (f x)) :
    Prints (xs.forM f) := by
  induction xs with
  | nil => exact ok
  | cons x rest ih =>
    obtain ⟨hx, hrest⟩ := List.forall_mem_cons.mp h
    exact hx.bind fun _ _ => ih hrest

end Prints

theorem Graph.tensor_prints (g : Graph) (id : TensorId) : Prints (g.tensor id) := by
  unfold tensor
  cases g.tensor? id with
  | none => exact .error rfl
  | some t => exact .ok

namespace Operator

variable {g : Graph} {op : Operator}

theorem operand_prints (slot : Nat) : Prints (op.operand g slot) := by
  unfold operand
  split
  · exact g.tensor_prints _
  · exact .error rfl

theorem result_prints : Prints (op.result g) := by
  unfold result
  split
  · exact g.tensor_prints _
  · exact .error rfl

theorem checkCounts_prints : Prints op.checkCounts := by
  unfold checkCounts
  exact .ite (fun _ => .error rfl) fun _ => .ite (fun _ => .error rfl) fun _ => .ok

theorem clash_prints {α : Type} {clash : TypeClash} (h : ∀ t ∈ clash.mentions, t.printable) :
    Prints (.error (.typeClash op.kind clash) : Except GraphError α) :=
  .error (List.all_eq_true.mpr h)

theorem checkInt32Slot_prints (hg : g.printable) (slot : Nat) : Prints (op.checkInt32Slot g slot) := by
  unfold checkInt32Slot
  cases op.inputs[slot]? with
  | none => exact .ok
  | some id =>
    refine (g.tensor_prints id).bind fun t ht => .ite (fun _ => .ok) fun _ => clash_prints ?_
    have htype := Graph.printable_iff.mp hg id t (Graph.tensor_eq_ok.mp ht)
    simpa [TypeClash.mentions] using htype

theorem printable_operand (hg : g.printable) {slot : Nat} {t : Tensor}
    (h : op.operand g slot = .ok t) : t.elementType.printable := by
  unfold operand at h
  split at h
  · next id _ => exact Graph.printable_iff.mp hg id t (Graph.tensor_eq_ok.mp h)
  · cases h

theorem printable_result (hg : g.printable) {t : Tensor} (h : op.result g = .ok t) :
    t.elementType.printable := by
  unfold result at h
  split at h
  · next id _ => exact Graph.printable_iff.mp hg id t (Graph.tensor_eq_ok.mp h)
  · cases h

theorem checkTypes_prints (hg : g.printable) : Prints (op.checkTypes g) := by
  unfold checkTypes
  refine (operand_prints _).bind fun data hdata => result_prints.bind fun out hout => ?_
  have hdata := printable_operand hg hdata
  have hout := printable_result hg hout
  split
  · refine (operand_prints _).bind fun right hright => .ite (fun _ => .ok) fun _ => clash_prints ?_
    simp [TypeClash.mentions, hdata, hout, printable_operand hg hright]
  · refine (operand_prints _).bind fun right hright => .ite (fun _ => .ok) fun _ => clash_prints ?_
    simp [TypeClash.mentions, hdata, hout, printable_operand hg hright]
  · exact .ite (fun _ => .ok) fun _ => clash_prints (by simp [TypeClash.mentions, hdata, hout])
  · exact .ite (fun _ => .ok) fun _ => clash_prints (by simp [TypeClash.mentions])
  · exact .ite (fun _ => .ok) fun _ => clash_prints (by simp [TypeClash.mentions, hdata, hout])

theorem check_prints (hg : g.printable) : Prints (op.check g) := by
  unfold check
  refine checkCounts_prints.bind fun _ _ =>
    Prints.bind (.forM fun slot _ => checkInt32Slot_prints hg slot) fun _ _ => ?_
  exact checkTypes_prints hg

end Operator

theorem Graph.printable_insertError? {g : Graph} {kind : NodeKind} {lowered : Bool} {e : GraphError}
    (h : g.insertError? kind lowered = some e) : (LowerError.graph e).printable := by
  unfold insertError? at h
  split at h
  · cases h
    rfl
  · obtain ⟨t, _, hclaim⟩ := List.exists_of_findSome?_eq_some h
    unfold claimError? at hclaim
    split at hclaim
    · cases hclaim
    · split at hclaim
      · cases hclaim
        rfl
      · cases hclaim

/-! ## Putting a chain in its place -/

theorem Succeeds.safe {α : Type} {accepted : Prop} {faults : Fault → Prop} {I : Graph → Prop}
    {m : Edit α} {s : Session} (h : Succeeds I m) (hs : I s.graph) :
    Safe accepted faults m s fun _ s' => I s'.graph := by
  obtain ⟨a, s', hrun, hs'⟩ := h s hs
  unfold Safe
  rw [hrun]
  exact hs'

namespace Edit

variable {faults : Fault → Prop} {s : Session} {d : Detachment}

theorem insertNode_safe (kind : NodeKind) (lowered : Bool) :
    Safe False faults (insertNode kind lowered) s fun _ s' =>
      s'.graph = s.graph.insert kind lowered := by
  cases herror : s.graph.insertError? kind lowered with
  | none =>
    obtain ⟨events, hrun⟩ := insertNode_run herror
    unfold Safe
    rw [hrun]
  | some e =>
    have hrejected := insertNode_rejected herror
    have hsafe : Safe False faults (reject (.graph e) : Edit NodeId) s fun _ s' =>
        s'.graph = s.graph.insert kind lowered :=
      reject_safe id rfl (.inr (Graph.printable_insertError? herror))
    unfold Safe at hsafe ⊢
    rw [hrejected]
    exact hsafe

theorem emitOperator_safe (op : Operator) (hprintable : faults .elementTypeText ∨ s.graph.printable) :
    Safe False faults (emitOperator d op) s fun _ s' =>
      faults .elementTypeText ∨ s'.graph.printable := by
  unfold emitOperator addOperator
  have hinsert : Safe False faults (insertNode (.operator op) true) s fun _ s' =>
      faults .elementTypeText ∨ s'.graph.printable := by
    refine (insertNode_safe _ _).mono fun _ s' hs' => hprintable.imp_right fun hprintable => ?_
    rw [hs', Graph.printable_congr Graph.tensor?_insert]
    exact hprintable
  have hcheck : Safe False faults (liftGraph (op.check s.graph) : Edit Unit) s fun _ _ => True :=
    liftGraph_safe False.elim fun e he =>
      hprintable.imp_right fun hprintable => Operator.check_prints hprintable e he
  refine Safe.bind (Safe.step rfl (Safe.andThen (liftGraph_ends _) hcheck fun _ _ _ => hinsert))
    fun _ s' hs' => ?_
  exact Safe.step rfl (Safe.pure hs')

theorem mapM_emitOperator_safe (chain : List Operator)
    (hprintable : faults .elementTypeText ∨ s.graph.printable) :
    Safe False faults (chain.mapM (emitOperator d)) s fun _ s' =>
      faults .elementTypeText ∨ s'.graph.printable := by
  induction chain generalizing s with
  | nil =>
    rw [List.mapM_nil]
    exact Safe.pure hprintable
  | cons op rest ih =>
    rw [List.mapM_cons]
    refine (emitOperator_safe op hprintable).bind fun _ s₁ hs₁ => ?_
    exact (ih hs₁).bind fun _ s₂ hs₂ => Safe.pure hs₂

theorem sum_safe {α : Type} {I : Graph → Prop} {count : α → Edit Nat} (xs : List α)
    (h : ∀ x ∈ xs, ∀ s, I s.graph → Safe False faults (count x) s fun _ s' => I s'.graph)
    (hs : I s.graph) :
    Safe False faults (sum xs count) s fun _ s' => I s'.graph := by
  unfold sum
  generalize 0 = total
  induction xs generalizing s total with
  | nil => exact Safe.pure hs
  | cons x rest ih =>
    rw [List.foldlM_cons]
    have hhead : Safe False faults (do return total + (← count x)) s fun _ s' => I s'.graph :=
      (h x List.mem_cons_self s hs).bind fun _ _ hs₁ => Safe.pure hs₁
    refine hhead.bind fun n s₁ hs₁ => ?_
    exact ih (fun y hy => h y (List.mem_cons_of_mem x hy)) hs₁ n

theorem restoreSuccessor_safe {g : Graph} {t : TensorId} (target : NodeId)
    (ht : (g.tensor? t).isSome) (hs : g.Rewires s.graph) :
    Safe False faults (restoreSuccessor d t target) s fun _ s' => g.Rewires s'.graph := by
  by_cases hproduced : g.isLive target → (g.producer? t).isSome
  · exact (restoreSuccessor_succeeds hproduced).safe hs
  · obtain ⟨tensor, htensor⟩ := Option.isSome_iff_exists.mp ht
    have hknown : s.graph.tensor? t = some tensor := by
      rw [hs]
      exact htensor
    have hnone : s.graph.producer? t = none := by
      have hfree : ¬ (g.producer? t).isSome := fun hsome => hproduced fun _ => hsome
      rw [hs]
      exact Option.not_isSome_iff_eq_none.mp hfree
    unfold restoreSuccessor
    refine Safe.step rfl ?_
    split
    · exact Safe.pure hs
    · rw [hnone, hknown]
      exact Safe.step rfl (reject_safe id rfl (.inr rfl))

theorem restore_safe
    (hpredecessors : ∀ source t, (source, t) ∈ d.predecessors → (s.graph.tensor? t).isSome)
    (hsuccessors : ∀ t target, (t, target) ∈ d.successors → (s.graph.tensor? t).isSome) :
    Safe False faults (restore d) s fun _ s' => s.graph.Rewires s'.graph := by
  have hbefore : ∀ p ∈ d.predecessors, ∀ s', s.graph.Rewires s'.graph →
      Safe False faults (restorePredecessor d p.1 p.2) s' fun _ s'' => s.graph.Rewires s''.graph :=
    fun p hp s' hs' => (restorePredecessor_succeeds (hpredecessors p.1 p.2 hp)).safe hs'
  have hafter : ∀ p ∈ d.successors, ∀ s', s.graph.Rewires s'.graph →
      Safe False faults (restoreSuccessor d p.1 p.2) s' fun _ s'' => s.graph.Rewires s''.graph :=
    fun p hp s' hs' => restoreSuccessor_safe p.2 (hsuccessors p.1 p.2 hp) hs'
  unfold restore
  refine (sum_safe d.predecessors hbefore rfl).bind fun _ s₁ hs₁ => ?_
  exact (sum_safe d.successors hafter hs₁).bind fun _ s₂ hs₂ => Safe.pure hs₂

theorem emit_safe (chain : List Operator) (hnew : d.firstNew ≤ s.graph.nextNode)
    (hprintable : faults .elementTypeText ∨ s.graph.printable)
    (hpredecessors : ∀ source t, (source, t) ∈ d.predecessors → (s.graph.tensor? t).isSome)
    (hsuccessors : ∀ t target, (t, target) ∈ d.successors → (s.graph.tensor? t).isSome) :
    Safe False faults (emit chain d) s fun _ s' => faults .elementTypeText ∨ s'.graph.printable := by
  unfold emit
  refine Safe.bind_ends (mapM_emitOperator_ends chain hnew)
    (mapM_emitOperator_safe chain hprintable) fun _ s₁ hgrows _ hs₁ => ?_
  have hknown (t : TensorId) (ht : (s.graph.tensor? t).isSome) : (s₁.graph.tensor? t).isSome := by
    obtain ⟨tensor, htensor⟩ := Option.isSome_iff_exists.mp ht
    rw [Graph.Grows.tensor? hgrows htensor]
    rfl
  refine (restore_safe (fun source t hp => hknown t (hpredecessors source t hp))
    fun t target hp => hknown t (hsuccessors t target hp)).bind fun _ s₂ hs₂ => ?_
  refine Safe.step rfl (Safe.pure (hs₁.imp_right fun hs₁ => ?_))
  show s₂.graph.printable
  rw [hs₂]
  exact hs₁

end Edit

/-! ## Replacing a composite -/

section Replacing

variable {faults : Fault → Prop} {s : Session} {id : NodeId}
  {node : Node} {op : Composite} {options : Options}

theorem Graph.Tracked.place_safe {g : Graph} (h : g.Tracked) {o : Outline}
    (houtlines : op.Outlines (g.eraseNode id) o s.graph)
    (hprintable : faults .elementTypeText ∨ s.graph.printable) :
    Safe False faults (o.place (g.detachment id node)) s fun _ s' =>
      faults .elementTypeText ∨ s'.graph.printable := by
  have hknown (e : Edge) (he : e ∈ g.edges) : (s.graph.tensor? e.tensor).isSome := by
    have hlt := h.carried e he
    obtain ⟨tensor, htensor⟩ : ∃ t, (g.eraseNode id).tensor? e.tensor = some t :=
      ⟨g.tensors[e.tensor.index], List.getElem?_eq_getElem hlt⟩
    rw [Graph.tensor?_of_extend houtlines.1.extend htensor]
    rfl
  have hemit : Safe False faults (Edit.emit o.chain (g.detachment id node)) s fun _ s' =>
      faults .elementTypeText ∨ s'.graph.printable :=
    Edit.emit_safe o.chain houtlines.1.nextNode_le hprintable
      (fun _ _ hp => hknown _ (mem_predecessors_detachment.mp hp))
      fun _ _ hp => hknown _ (mem_successors_detachment.mp hp).1
  have hplace : Safe False faults
      (do return ⟨← Edit.emit o.chain (g.detachment id node), o.diagnostics⟩ : Edit Lowered) s
      fun _ s' =>
      faults .elementTypeText ∨ s'.graph.printable :=
    hemit.bind fun _ _ hs' => Safe.pure hs'
  unfold Safe at hplace ⊢
  rw [h.place_eq houtlines]
  exact hplace

/-- The faults in which the draft of a composite can end are among the given ones
(`Composite.outline_safe`). -/
structure Composite.Guarded (op : Composite) (faults : Fault → Prop) (s : Session) : Prop where
  printable : faults .elementTypeText ∨ s.graph.printable
  axes : ∀ id ∈ op.inputs ++ [op.output], ∀ t, s.graph.tensor? id = some t →
    faults .quantizedAxis ∨ t.AxisFits
  large : ∀ n y l d', op = .convolution n → s.graph.tensor? n.output = some y →
    Draft.liftConvolution Convolution.lowering n.input n.weight n.output n.params
      ⟨s, y.name, 0, 0⟩ = .ok l d' →
    (n.Overflows d'.session.graph → faults .channelProduct) ∧
    (n.Overfills d'.session.graph → faults .bufferSize)

theorem Composite.Guarded.outline_safe {accepted : Prop} {s : Session} (h : op.Guarded faults s)
    (haccepts : accepted → op.Acceptable options s) :
    Safe accepted faults (op.outline options) s fun _ s' =>
      faults .elementTypeText ∨ s'.graph.printable := by
  refine op.outline_safe options h.printable h.axes ?_ haccepts
  rintro n y l d rfl hy hlift
  obtain ⟨hoverflow, hoverfill⟩ := h.large n y l d rfl hy hlift
  refine ⟨hoverflow, fun g hg hexceeds => hoverfill ?_⟩
  have hopen : Drafting.Open ⟨s, y.name, 0, 0⟩ 0 := Nat.zero_le _
  obtain ⟨_, hl⟩ :=
    (Draft.liftConvolution_ends Convolution.lowering n.input n.weight n.output n.params hopen).of_ok
      hlift
  obtain ⟨_, w, _, _, _, _, hraised⟩ := (hl _ (Drafting.Before.refl d)).raised
  exact hexceeds.overfills hg hraised.weight

theorem Graph.Tracked.lower_safe {g : Graph} (h : g.Tracked) {events : List Event}
    (hguarded : op.Guarded faults ⟨g.eraseNode id, events⟩) :
    Safe False faults (op.lower (g.detachment id node) options) ⟨g.eraseNode id, events⟩ fun _ s' =>
      faults .elementTypeText ∨ s'.graph.printable := by
  have houtline : Safe False faults (op.outline options) ⟨g.eraseNode id, events⟩ fun _ s' =>
      faults .elementTypeText ∨ s'.graph.printable :=
    hguarded.outline_safe False.elim
  rw [op.lower_eq]
  refine houtline.with_run.bind fun o s' ⟨hrun, hs'⟩ => ?_
  exact h.place_safe (Composite.outlines_of_ok hrun) hs'

namespace Edit

/-- Replacing a node ends in a fault of the draft only. It is rejected for a reason that has a text,
and that is not that the chain does not hang together. -/
theorem lowerNode_safe (h : s.graph.Tracked) (id : NodeId) (options : Options)
    (hguarded : ∀ node op, s.graph.node? id = some node → node.kind = .composite op →
      op.Guarded faults ⟨s.graph.eraseNode id, s.events⟩) :
    Safe False faults (lowerNode id options) s fun _ s' =>
      faults .elementTypeText ∨ s'.graph.printable := by
  cases hnode : s.graph.node? id with
  | none =>
    unfold lowerNode
    refine Safe.step rfl ?_
    rw [hnode]
    exact reject_safe not_false rfl (.inr rfl)
  | some node =>
    cases hkind : node.kind with
    | composite op =>
      have hsafe : Safe False faults (op.lower (s.graph.detachment id node) options) _ _ :=
        h.lower_safe (hguarded node op hnode hkind)
      have hends := op.lower_ends (s := ⟨s.graph.eraseNode id, s.events⟩)
        (d := s.graph.detachment id node) options (Nat.le_refl _)
      unfold Safe
      rw [lowerNode_composite hnode hkind]
      cases hrun : op.lower (s.graph.detachment id node) options ⟨s.graph.eraseNode id, s.events⟩ with
      | ok result s₁ =>
        obtain ⟨events, hlower⟩ := lower_of_ok hrun
        have hprintable := hsafe.of_ok hrun
        rw [hlower]
        exact hprintable
      | error stop s₁ =>
        cases stop with
        | fault f =>
          rw [lower_of_fault hrun]
          exact hsafe.of_fault hrun
        | rejected e =>
          have hgrows : Graph.Grows _ (s.graph.eraseNode id) s₁.graph := hends.of_error hrun
          obtain ⟨events, hlower⟩ := lower_of_rejected hrun hgrows.length_le
          obtain ⟨_, hprintable, hrefusal⟩ := hsafe.of_rejected hrun
          rw [hlower, reject, if_pos hprintable]
          exact ⟨not_false, hprintable, hrefusal⟩
    | input _ | constant _ | output _ | operator _ =>
      unfold lowerNode
      refine Safe.step rfl ?_
      simp only [hnode, hkind]
      exact reject_safe not_false rfl (.inr rfl)

theorem lowerNode_printable (h : s.graph.Tracked) (hprintable : s.graph.printable)
    {result : Lowered} {s' : Session} (hrun : lowerNode id options s = .ok result s') :
    s'.graph.printable := by
  have hsafe : Safe False (· ≠ .elementTypeText) (lowerNode id options) s fun _ s' =>
      Fault.elementTypeText ≠ .elementTypeText ∨ s'.graph.printable := by
    refine lowerNode_safe h id options fun node op _ _ =>
      ⟨.inr hprintable, fun _ _ _ _ => .inl ?_, fun _ _ _ _ _ _ _ => ⟨fun _ => ?_, fun _ => ?_⟩⟩
    · exact fun hfault => nomatch hfault
    · exact fun hfault => nomatch hfault
    · exact fun hfault => nomatch hfault
  exact (hsafe.of_ok hrun).resolve_left fun hne => hne rfl

end Edit

end Replacing

/-! ## The check of chains -/

/-- Calls that build a transposed convolution of two inputs with a reader, and put in edges by hand
that carry other tensors to the convolution and from it. -/
def connectedCalls : List Call :=
  [.addInput (.computed "x" ⟨.f32, ⟨[1, 1, 2, 2]⟩⟩ none),
    .addInput (.computed "w" ⟨.f32, ⟨[1, 1, 2, 2]⟩⟩ none),
    .addTensor (.computed "y" ⟨.f32, ⟨[1, 1, 3, 3]⟩⟩ none),
    .addComposite (.transposedConvolution ⟨⟨0⟩, ⟨1⟩, none, ⟨2⟩, .unit 2⟩),
    .markOutput ⟨2⟩, .connect ⟨2⟩ ⟨3⟩ ⟨0⟩,
    .connect ⟨0⟩ ⟨2⟩ ⟨1⟩]

namespace Edit

/-- After any calls, edges put in by hand included, the check of a chain in its place passes. So no
lowering is rejected for a chain that does not hang together, and lowering does the same whether
chains of transposed convolutions are checked or not. -/
theorem chain_check_passes {calls : List Call} {w : World} (hcalls : World.after calls = some w)
    (options : Options) :
    (∀ id tensor found s, lowerNode id options w.session ≠
      .error (.rejected (.inconsistent tensor found)) s) ∧
    (∀ id node op o t nodes s, w.graph.node? id = some node → node.kind = .composite op →
      op.outline options ⟨w.graph.eraseNode id, w.session.events⟩ = .ok o t →
      emit o.chain (w.graph.detachment id node) t = .ok nodes s → verify o.chain s = .ok () s) ∧
    (∀ id verified, lowerNode id { options with verifyTransposed := verified } w.session =
      lowerNode id options w.session) ∧
    ∀ verified, lowerGraph { options with verifyTransposed := verified } w.session =
      lowerGraph options w.session := by
  have htracked := World.after_tracked hcalls
  refine ⟨fun id tensor found s hrun => ?_,
    fun id node op o t nodes s _ _ houtline hemit => ?_, fun id verified => ?_, fun verified => ?_⟩
  · have hsafe : Safe False (fun _ => True) (lowerNode id options) w.session fun _ s' =>
        True ∨ s'.graph.printable :=
      lowerNode_safe htracked id options fun _ _ _ _ =>
        ⟨.inl trivial,
          fun _ _ _ _ => .inl trivial, fun _ _ _ _ _ _ _ => ⟨fun _ => trivial, fun _ => trivial⟩⟩
    exact nomatch (hsafe.of_rejected hrun).2.2
  · exact verify_run (htracked.emit_checked (Composite.outlines_of_ok houtline) hemit)
  · exact lowerNode_verification htracked id options verified
  · exact lowerGraph_verification htracked options verified

/-- A transposed convolution with edges that were put in by hand is lowered with the check, hence
without it. -/
theorem chain_check_passes_connected :
    ∃ w result s, World.after connectedCalls = some w ∧ result.nodes.length = 4 ∧
      lowerNode ⟨2⟩ .default w.session = .ok result s ∧
      lowerNode ⟨2⟩ ⟨false, false⟩ w.session = .ok result s := by
  have hrun : ((World.after connectedCalls).bind fun w =>
      ((lowerNode ⟨2⟩ .default).success? w.session).map fun r => r.1.nodes.length) = some 4 := by
    decide +kernel
  obtain ⟨w, hw, hlower⟩ := Option.bind_eq_some_iff.mp hrun
  obtain ⟨⟨result, s⟩, hsuccess, hlength⟩ := Option.map_eq_some_iff.mp hlower
  have hok := success?_eq_some hsuccess
  exact ⟨w, result, s, hw, hlength, hok, ((chain_check_passes hw .default).2.2.1 ⟨2⟩ false).trans hok⟩

end Edit

/-! ## A convolution with too many channels -/

theorem Safe.fault {σ α : Type} {m : EStateM Stop σ α} {s : σ} {fault : Fault}
    (h : Safe True (· = fault) m s fun _ _ => False) :
    ∃ s', m s = .error (.fault fault) s' := by
  cases hrun : m s with
  | ok a s' => exact (h.of_ok hrun).elim
  | error stop s' =>
    cases stop with
    | rejected e => exact absurd trivial (h.of_rejected hrun).1
    | fault f =>
      obtain rfl := h.of_fault hrun
      exact ⟨s', rfl⟩

namespace Convolution

/-- The first thing that is computed of a convolution of images is the number of channels of all
groups. -/
theorem draft_overflow (n : Convolution) (options : Options) {d d' : Drafting} {l : Lifted}
    (hlift : Draft.liftConvolution lowering n.input n.weight n.output n.params d = .ok l d')
    (h : n.Overflows d'.session.graph) :
    Safe True (· = .channelProduct) (n.draft options) d fun _ _ => False := by
  have hopen : d.Open 0 := Nat.zero_le _
  obtain ⟨_, hl⟩ :=
    (Draft.liftConvolution_ends lowering n.input n.weight n.output n.params hopen).of_ok hlift
  obtain ⟨x, w, y, x', w', y', hraised⟩ := (hl _ (Drafting.Before.refl d')).raised
  obtain ⟨w₁, groupWidth, hw₁, hgroupWidth, hlarge⟩ := h
  cases hw₁.symm.trans hraised.weight
  obtain ⟨batch, inputChannels, height, width, hxDims⟩ := List.length_eq_four.mp hraised.lays.ranks.1
  obtain ⟨outputChannels, _, kernelHeight, kernelWidth, hwDims⟩ :=
    List.length_eq_four.mp hraised.lays.ranks.2.1
  rw [← Lift.getElem?_raise _ Nat.one_lt_two, ← hraised.weightDims] at hgroupWidth
  unfold draft
  refine Safe.bind (P := fun _ _ => False) ?_ fun _ _ hfalse => hfalse.elim
  unfold survey
  refine Safe.step hlift ?_
  refine Safe.andThen (Draft.tensor_ends _)
    (Draft.tensor_safe _ fun _ => by rw [hraised.lays.input]; rfl) fun x₁ hx₁ _ => ?_
  cases hraised.lays.input.symm.trans (hx₁ _ (Drafting.Before.refl d'))
  refine Safe.step (entry_ok (x := inputChannels) (by rw [hxDims]; rfl)) ?_
  refine Safe.andThen (Draft.tensor_ends _)
    (Draft.tensor_safe _ fun _ => by rw [hraised.lays.weight]; rfl) fun w₁ hw₁ _ => ?_
  cases hraised.lays.weight.symm.trans (hw₁ _ (Drafting.Before.refl d'))
  refine Safe.step (entry_ok (x := outputChannels) (by rw [hwDims]; rfl))
    (Safe.step (entry_ok hgroupWidth) ?_)
  refine Safe.bind (P := fun _ _ => False) ?_ fun _ _ hfalse => hfalse.elim
  unfold totalChannels
  rw [hraised.groups]
  exact .ite (fun hsmall => absurd hlarge (Nat.not_lt.mpr hsmall)) fun _ => faulty_safe rfl

theorem outline_overflow (n : Convolution) (options : Options) {s : Session} {y : Tensor}
    {l : Lifted} {d : Drafting} (hgroups : n.params.groups ≠ 0)
    (hy : s.graph.tensor? n.output = some y)
    (hlift : Draft.liftConvolution lowering n.input n.weight n.output n.params ⟨s, y.name, 0, 0⟩ =
      .ok l d)
    (h : n.Overflows d.session.graph) :
    Safe True (· = .channelProduct) (n.outline options) s fun _ _ => False := by
  unfold outline
  refine .ite (fun hzero => absurd hzero hgroups) fun _ => ?_
  refine Safe.step rfl
    (Safe.andThen (liftGraph_ends _) (liftTensor_safe fun _ => by rw [hy]; rfl) fun y' hy' _ => ?_)
  cases hy.symm.trans (Graph.tensor_eq_ok.mp hy')
  refine (Draft.run_safe (n.draft_overflow options hlift h)).bind ?_
  rintro _ _ ⟨_, _, hfalse⟩
  exact hfalse.elim

end Convolution

/-! ## The faults of a lowering -/

def Session.LiftsNode (s : Session) (id : NodeId) (n : Convolution) (w : Tensor) : Prop :=
  ∃ node y l d, s.graph.node? id = some node ∧ node.kind = .composite (.convolution n) ∧
    s.graph.tensor? n.weight = some w ∧ s.graph.tensor? n.output = some y ∧
    Draft.liftConvolution Convolution.lowering n.input n.weight n.output n.params
      ⟨⟨s.graph.eraseNode id, s.events⟩, y.name, 0, 0⟩ = .ok l d

/-- The node is a convolution with more channels in all groups than there are sizes. -/
def Session.ExceedsSizes (s : Session) (id : NodeId) : Prop :=
  ∃ n w groupWidth, s.LiftsNode id n w ∧ 1 ≤ n.params.groups ∧ w.shape.dims[1]? = some groupWidth ∧
    2 ^ 64 ≤ groupWidth * n.params.groups

/-- The node is a convolution with more output channels than eight-byte elements fit into memory. -/
def Session.ExceedsMemory (s : Session) (id : NodeId) : Prop :=
  ∃ n w channels, s.LiftsNode id n w ∧ w.shape.dims[0]? = some channels ∧ maxBufferSize < 8 * channels

section Faults

variable {s : Session} {id : NodeId} {options : Options}

open GraphLowering.Graph (Tracked)

theorem Session.weight_of_lift {n : Convolution} {node : Node} {owner : String} {l : Lifted}
    {d : Drafting} {w : Tensor} (hwf : s.graph.WellFormed) (hnode : s.graph.node? id = some node)
    (hkind : node.kind = .composite (.convolution n))
    (hlift : Draft.liftConvolution Convolution.lowering n.input n.weight n.output n.params
      ⟨⟨s.graph.eraseNode id, s.events⟩, owner, 0, 0⟩ = .ok l d)
    (hw : d.session.graph.tensor? n.weight = some w) : s.graph.tensor? n.weight = some w := by
  have hmem : n.weight ∈ node.kind.inputs ++ node.kind.outputs := by
    rw [hkind]
    exact List.mem_append_left _ (List.mem_cons_of_mem _ List.mem_cons_self)
  obtain ⟨w', hw'⟩ := Option.isSome_iff_exists.mp (hwf.registered id node hnode _ hmem)
  have hopen : Drafting.Open ⟨⟨s.graph.eraseNode id, s.events⟩, owner, 0, 0⟩ 0 := Nat.zero_le _
  obtain ⟨hregistered, _⟩ :=
    (Draft.liftConvolution_ends Convolution.lowering n.input n.weight n.output n.params hopen).of_ok
      hlift
  have hlater : d.session.graph.tensor? n.weight = some w' :=
    Drafting.Registered.tensor? hregistered hw'
  cases hw.symm.trans hlater
  exact hw'

/-- In a graph whose element types have texts and whose composites have axes that can be moved, a
lowering ends in two faults only. -/
theorem Edit.lowerNode_fault (h : s.graph.Tracked) (hprintable : s.graph.printable)
    (haxes : ∀ node op, s.graph.node? id = some node → node.kind = .composite op →
      ∀ t ∈ op.inputs ++ [op.output], ∀ tensor, s.graph.tensor? t = some tensor → tensor.AxisFits)
    {fault : Fault} {s' : Session} (hrun : lowerNode id options s = .error (.fault fault) s') :
    fault = .channelProduct ∧ s.ExceedsSizes id ∨ fault = .bufferSize ∧ s.ExceedsMemory id := by
  have hsafe : Safe False (fun fault =>
      fault = .channelProduct ∧ s.ExceedsSizes id ∨ fault = .bufferSize ∧ s.ExceedsMemory id)
      (lowerNode id options) s fun _ _ => True := by
    refine (lowerNode_safe h id options fun node op hnode hkind =>
      ⟨.inr hprintable, fun t ht tensor htensor => .inr ?_, ?_⟩).mono fun _ _ _ => trivial
    · exact haxes node op hnode hkind t ht tensor htensor
    · rintro n y l d rfl hy hlift
      have hlifts (w : Tensor) (hw : d.session.graph.tensor? n.weight = some w) : s.LiftsNode id n w :=
        ⟨node, y, l, d, hnode, hkind, Session.weight_of_lift h.wellFormed hnode hkind hlift hw,
          hy, hlift⟩
      refine ⟨?_, ?_⟩
      · rintro ⟨w, groupWidth, hw, hgroupWidth, hlarge⟩
        refine .inl ⟨rfl, n, w, groupWidth, hlifts w hw,
          Nat.pos_of_ne_zero fun hzero => ?_, hgroupWidth, hlarge⟩
        rw [hzero] at hlarge
        exact Nat.not_lt_zero _ hlarge
      · rintro ⟨w, channels, hw, hchannels, hlarge⟩
        exact .inr ⟨rfl, n, w, channels, hlifts w hw, hchannels, hlarge⟩
  exact hsafe.of_fault hrun

theorem Session.ExceedsSizes.fault (h : s.ExceedsSizes id) (options : Options) :
    ∃ s', Edit.lowerNode id options s = .error (.fault .channelProduct) s' := by
  obtain ⟨n, w, groupWidth, ⟨node, y, l, d, hnode, hkind, hw, hy, hlift⟩,
    hgroups, hgroupWidth, hlarge⟩ := h
  have hopen : Drafting.Open ⟨⟨s.graph.eraseNode id, s.events⟩, y.name, 0, 0⟩ 0 := Nat.zero_le _
  obtain ⟨hregistered, _⟩ :=
    (Draft.liftConvolution_ends Convolution.lowering n.input n.weight n.output n.params hopen).of_ok
      hlift
  have hoverflows : n.Overflows d.session.graph :=
    ⟨w, groupWidth, Drafting.Registered.tensor? hregistered hw, hgroupWidth, hlarge⟩
  have hlower : Safe True (· = .channelProduct)
      ((Composite.convolution n).lower (s.graph.detachment id node) options)
      ⟨s.graph.eraseNode id, s.events⟩ fun _ _ => False := by
    rw [Composite.lower_eq]
    exact (n.outline_overflow (s := ⟨s.graph.eraseNode id, s.events⟩)
      options (Nat.ne_of_gt hgroups) hy hlift hoverflows).bind fun _ _ hfalse => hfalse.elim
  obtain ⟨s', hrun⟩ := hlower.fault
  rw [Edit.lowerNode_composite hnode hkind]
  exact ⟨s', Edit.lower_of_fault hrun⟩

namespace Edit

theorem mapM_lowerNode_keeps {I : Graph → Prop}
    (hI : ∀ id s result s', I s.graph → lowerNode id options s = .ok result s' → I s'.graph)
    {ids : List NodeId} {results : List Lowered} {s' : Session} (hs : I s.graph)
    (h : ids.mapM (lowerNode · options) s = .ok results s') : I s'.graph := by
  induction ids generalizing s results with
  | nil =>
    cases h
    exact hs
  | cons id rest ih =>
    rw [List.mapM_cons, run_bind_eq_ok] at h
    obtain ⟨result, s₁, hhead, hothers⟩ := h
    obtain ⟨others, s₂, hrest, hreturn⟩ := run_bind_eq_ok.mp hothers
    cases hreturn
    exact ih (hI id s result s₁ hs hhead) hrest

/-- The loop over the composites ends in a fault only where the lowering of one of them does. Those
that are left have the tensors they had at first. -/
theorem lowerGraph_fault (h : s.graph.Tracked) (hprintable : s.graph.printable)
    (haxes : ∀ t ∈ s.graph.tensors, t.AxisFits) {fault : Fault} {s' : Session}
    (hrun : lowerGraph options s = .error (.fault fault) s') :
    ∃ order done id left results s₁,
      s.graph.topologicalOrder = .ok order ∧ order.filter s.graph.isComposite = done ++ id :: left ∧
      done.mapM (lowerNode · options) s = .ok results s₁ ∧
      lowerNode id options s₁ = .error (.fault fault) s' ∧
      (fault = .channelProduct ∧ s₁.ExceedsSizes id ∨ fault = .bufferSize ∧ s₁.ExceedsMemory id) := by
  cases horder : s.graph.topologicalOrder with
  | error stop =>
    obtain ⟨visited, total, rfl⟩ := Graph.cycle_of_topologicalOrder h.wellFormed.ends horder
    rw [lowerGraph_of_no_order horder] at hrun
    cases hrun
  | ok order =>
    have hloop := foldlM_lowerNode options (order.filter s.graph.isComposite) .empty s
    rw [← lowerGraph_eq h.wellFormed horder, hrun] at hloop
    obtain ⟨done, id, left, results, s₁, hids, hdone, hstop⟩ := hloop
    have hkept : s₁.graph.Tracked ∧ s₁.graph.printable ∧ s.graph.tensors <+: s₁.graph.tensors := by
      refine mapM_lowerNode_keeps
        (I := fun g => g.Tracked ∧ g.printable ∧ s.graph.tensors <+: g.tensors)
        ?_ ⟨h, hprintable, List.prefix_refl _⟩ hdone
      rintro id s₂ result s₃ ⟨htracked, hprintable, hextends⟩ hlower
      have hsettles : Settles (fun g g' => g.Tracked → g'.Tracked) (lowerNode id options) s₂
          fun _ _ => True :=
        lowerNode_settles id options
      rw [Settles, hlower] at hsettles
      refine ⟨hsettles.1 htracked, lowerNode_printable htracked hprintable hlower, hextends.trans ?_⟩
      exact ((lowerNode_run id options s₂).1 _ _ hlower).tensors_extend
    obtain ⟨htracked, hprintable₁, hextends⟩ := hkept
    refine ⟨order, done, id, left, results, s₁, rfl, hids, hdone, hstop, ?_⟩
    refine lowerNode_fault htracked hprintable₁
      (fun node op hnode hkind t ht tensor htensor => ?_) hstop
    -- the composite was there at first, and so were the tensors that it names
    have hcomposite : node.kind.isComposite := by
      rw [hkind]
      rfl
    obtain ⟨hnode₀, _⟩ := (mapM_lowerNode hdone).node?_composite h.wellFormed hnode hcomposite
    have hmem : t ∈ node.kind.inputs ++ node.kind.outputs := by
      rw [hkind]
      exact ht
    obtain ⟨tensor₀, htensor₀⟩ :=
      Option.isSome_iff_exists.mp (h.wellFormed.registered id node hnode₀ t hmem)
    cases htensor.symm.trans (Graph.tensor?_of_extend hextends htensor₀)
    exact haxes tensor (List.mem_of_getElem? htensor₀)

/-- After any calls, in a graph whose element types are narrower than 32 bytes and whose quantized
axes are not the last number, lowering ends in no fault but two. One is that there is no memory for
a bias. The other happens if and only if the node is a convolution with more channels in all groups
than there are sizes. Lowering the whole graph ends in a fault only where it lowers such a node. -/
theorem lowering_faults {calls : List Call} {w : World} (hcalls : World.after calls = some w)
    (hwidths : ∀ t ∈ w.graph.tensors, t.elementType.width.toNat < 32)
    (haxes : ∀ t ∈ w.graph.tensors, t.AxisFits) (options : Options) :
    (∀ id, (∀ fault s, lowerNode id options w.session = .error (.fault fault) s →
        fault = .channelProduct ∨ fault = .bufferSize ∧ w.session.ExceedsMemory id) ∧
      ((∃ s, lowerNode id options w.session = .error (.fault .channelProduct) s) ↔
        w.session.ExceedsSizes id)) ∧
    ∀ fault s, lowerGraph options w.session = .error (.fault fault) s →
      ∃ order done id left results s₁, w.graph.topologicalOrder = .ok order ∧
        order.filter w.graph.isComposite = done ++ id :: left ∧
        done.mapM (lowerNode · options) w.session = .ok results s₁ ∧
        lowerNode id options s₁ = .error (.fault fault) s ∧
        (fault = .channelProduct ∧ s₁.ExceedsSizes id ∨ fault = .bufferSize ∧ s₁.ExceedsMemory id) := by
  have htracked := World.after_tracked hcalls
  have hprintable := Graph.printable_of_widths hwidths
  have hfault {id : NodeId} {fault : Fault} {s : Session}
      (hrun : lowerNode id options w.session = .error (.fault fault) s) :
      fault = .channelProduct ∧ w.session.ExceedsSizes id ∨
      fault = .bufferSize ∧ w.session.ExceedsMemory id :=
    lowerNode_fault htracked hprintable
      (fun _ _ _ _ _ _ _ htensor => haxes _ (List.mem_of_getElem? htensor)) hrun
  refine ⟨fun id => ⟨fun fault s hrun => (hfault hrun).imp_left And.left, ?_, fun h => h.fault options⟩,
    fun fault s hrun => ?_⟩
  · rintro ⟨s, hrun⟩
    rcases hfault hrun with ⟨_, hexceeds⟩ | ⟨hother, _⟩
    · exact hexceeds
    · cases hother
  · exact lowerGraph_fault htracked hprintable haxes hrun

def fault? {α : Type} (edit : Edit α) (s : Session) : Option Fault :=
  match edit s with
  | .error (.fault fault) _ => some fault
  | _ => none

theorem fault?_eq_some {α : Type} {edit : Edit α} {fault : Fault} (h : edit.fault? s = some fault) :
    ∃ s', edit s = .error (.fault fault) s' := by
  unfold fault? at h
  split at h
  · next hrun =>
    cases h
    exact ⟨_, hrun⟩
  · cases h

/-- A convolution of two inputs in 2 ^ 31 groups, each of which has 2 ^ 33 channels. -/
theorem lowering_faults_many_groups :
    ∃ w s, World.after [.addInput (.computed "x" ⟨.f32, ⟨[1, 1, 2, 2]⟩⟩ none),
        .addInput (.computed "w" ⟨.f32, ⟨[1, 8589934592, 1, 1]⟩⟩ none),
        .addTensor (.computed "y" ⟨.f32, ⟨[1, 1, 2, 2]⟩⟩ none),
        .addComposite (.convolution
          ⟨⟨0⟩, ⟨1⟩, none, ⟨2⟩, ⟨[1, 1], [0, 0], [1, 1], [0, 0], 2147483648⟩, .none⟩)] = some w ∧
      (∀ t ∈ w.graph.tensors, t.elementType.width.toNat < 32) ∧ (∀ t ∈ w.graph.tensors, t.AxisFits) ∧
      lowerNode ⟨2⟩ .default w.session = .error (.fault .channelProduct) s ∧
      w.session.ExceedsSizes ⟨2⟩ := by
  have hrun : ((World.after [.addInput (.computed "x" ⟨.f32, ⟨[1, 1, 2, 2]⟩⟩ none),
      .addInput (.computed "w" ⟨.f32, ⟨[1, 8589934592, 1, 1]⟩⟩ none),
      .addTensor (.computed "y" ⟨.f32, ⟨[1, 1, 2, 2]⟩⟩ none),
      .addComposite (.convolution
        ⟨⟨0⟩, ⟨1⟩, none, ⟨2⟩, ⟨[1, 1], [0, 0], [1, 1], [0, 0], 2147483648⟩, .none⟩)]).map fun w =>
        (w.graph.tensors.all fun t => t.elementType.width.toNat < 32,
          w.graph.tensors.all fun t => t.quantization.isNone,
          (lowerNode ⟨2⟩ .default).fault? w.session)) = some (true, true, some .channelProduct) := by
    decide +kernel
  obtain ⟨w, hw, hall⟩ := Option.map_eq_some_iff.mp hrun
  simp only [Prod.mk.injEq, List.all_eq_true, decide_eq_true_eq, Option.isNone_iff_eq_none] at hall
  obtain ⟨hwidths, hplain, hfault⟩ := hall
  obtain ⟨s, hstop⟩ := fault?_eq_some hfault
  have haxes : ∀ t ∈ w.graph.tensors, t.AxisFits := by
    intro t ht q hq
    rw [hplain t ht] at hq
    cases hq
  exact ⟨w, s, hw, hwidths, haxes, hstop,
    ((lowering_faults hw hwidths haxes .default).1 ⟨2⟩).2.mp ⟨s, hstop⟩⟩

end Edit

end Faults

end GraphLowering
