import GraphLowering.Graph.Dump
import GraphLowering.Proofs.Naming
import GraphLowering.Proofs.Permutations
import GraphLowering.Proofs.Safety
import GraphLowering.Proofs.Sizes
import Mathlib.Data.List.InsertIdx

/-!
# Why a draft stops

For each function of a draft, the faults in which it can end and a condition under which it is not
rejected. `Drafting.Ready` is what a draft keeps while it registers tensors: their element types
have texts, and the names it is going to give are free.
-/

namespace GraphLowering

/-- A unit axis can be put before the quantized axis of a tensor. -/
def Tensor.AxisFits (t : Tensor) : Prop :=
  ∀ q ∈ t.quantization, ∀ a ∈ q.axis, a < maxSize

theorem Tensor.axisFits_of_plain {t : Tensor} (h : t.quantization = none) : t.AxisFits := by
  intro q hq
  rw [h] at hq
  cases hq

namespace Drafting

def count (d : Drafting) (role : String) : Nat :=
  if role = "attr" then d.operands else d.intermediates

/-- The numbered names from the next ones on are free, and so are some other names. -/
structure Free (d : Drafting) (names : List String) : Prop where
  numbered : ∀ role ∈ roles, ∀ n, d.count role ≤ n →
    d.session.graph.tensorNamed? (generatedName d.owner role n) = none
  named : ∀ name ∈ names, d.session.graph.tensorNamed? name = none ∧ Explicit d.owner name
  distinct : names.Nodup

/-- What holds while a draft registers tensors. That names are free matters only if the draft is to
be accepted. -/
structure Ready (accepted : Prop) (faults : Fault → Prop) (owner : String)
    (names : List String) (d : Drafting) : Prop where
  owner : d.owner = owner
  printable : faults .elementTypeText ∨ d.session.graph.printable
  free : accepted → d.Free names

variable {accepted : Prop} {faults : Fault → Prop} {owner name : String}
  {names : List String} {d d' : Drafting} {t : Tensor}

theorem Free.push (h : d.Free names) (howner : d'.owner = d.owner)
    (hgraph : d'.session.graph = d.session.graph.pushTensor t) {names' : List String}
    (hnumbered : ∀ role ∈ roles, ∀ n, d'.count role ≤ n →
      d.count role ≤ n ∧ generatedName d.owner role n ≠ t.name)
    (hnames : ∀ name ∈ names', name ∈ names ∧ name ≠ t.name) (hdistinct : names'.Nodup) :
    d'.Free names' := by
  have hstill : ∀ name, d.session.graph.tensorNamed? name = none →
      name ≠ t.name → d'.session.graph.tensorNamed? name = none := by
    intro name hfree hne
    rw [hgraph, Graph.tensorNamed?_pushTensor, if_neg hne, hfree]
  refine ⟨fun role hrole n hn => ?_, fun name hname => ?_, hdistinct⟩
  · obtain ⟨hle, hne⟩ := hnumbered role hrole n hn
    rw [howner]
    exact hstill _ (h.numbered role hrole n hle) hne
  · obtain ⟨hmem, hne⟩ := hnames name hname
    rw [howner]
    exact ⟨hstill name (h.named name hmem).1 hne, (h.named name hmem).2⟩

theorem Free.push_numbered (h : d.Free names) (howner : d'.owner = d.owner)
    (hgraph : d'.session.graph = d.session.graph.pushTensor t) {role : String}
    (hrole : role ∈ roles) (hname : t.name = generatedName d.owner role (d.count role))
    (hcount : ∀ r ∈ roles, d'.count r = if r = role then d.count r + 1 else d.count r) :
    d'.Free names := by
  refine h.push howner hgraph (fun r hr n hn => ?_) (fun name hmem => ⟨hmem, ?_⟩) h.distinct
  · rw [hcount r hr] at hn
    by_cases hsame : r = role
    · subst hsame
      rw [if_pos rfl] at hn
      refine ⟨by omega, fun heq => ?_⟩
      rw [hname] at heq
      have hn' := (generatedName_inj (underscore_not_mem_role hr) (underscore_not_mem_role hr) heq).2
      omega
    · rw [if_neg hsame] at hn
      refine ⟨hn, fun heq => hsame ?_⟩
      rw [hname] at heq
      exact (generatedName_inj (underscore_not_mem_role hr) (underscore_not_mem_role hrole) heq).1
  · rintro rfl
    exact (h.named _ hmem).2 role hrole _ hname.symm

theorem Free.push_named (h : d.Free (name :: names)) (howner : d'.owner = d.owner)
    (hgraph : d'.session.graph = d.session.graph.pushTensor t) (hname : t.name = name)
    (hcount : d'.count = d.count) :
    d'.Free names := by
  obtain ⟨hfresh, hdistinct⟩ := List.nodup_cons.mp h.distinct
  obtain ⟨_, hexplicit⟩ := h.named name List.mem_cons_self
  subst hname
  refine h.push howner hgraph (fun role hrole n hn => ⟨?_, hexplicit role hrole n⟩)
    (fun name hmem => ⟨List.mem_cons_of_mem _ hmem, ?_⟩) hdistinct
  · rwa [hcount] at hn
  · rintro rfl
    exact hfresh hmem

theorem Free.of_unowned {s : Session} (hwf : s.graph.WellFormed)
    (hnames : ∀ t ∈ s.graph.tensors, ¬ Owned owner t.name)
    (howned : ∀ name ∈ names, Owned owner name ∧ Explicit owner name) (hdistinct : names.Nodup) :
    Free ⟨s, owner, 0, 0⟩ names := by
  have hfree (name : String) (hname : Owned owner name) : s.graph.tensorNamed? name = none := by
    refine Option.eq_none_iff_forall_ne_some.mpr fun id hid => ?_
    obtain ⟨t, ht, rfl⟩ := (hwf.indexed name id).mp hid
    exact hnames t (List.mem_of_getElem? ht) hname
  exact ⟨fun role _ n _ => hfree _ (owned_generatedName owner role n),
    fun name hname => ⟨hfree name (howned name hname).1, (howned name hname).2⟩, hdistinct⟩

theorem Free.tail (h : d.Free (name :: names)) : d.Free names :=
  ⟨h.numbered, fun n hn => h.named n (List.mem_cons_of_mem _ hn), (List.nodup_cons.mp h.distinct).2⟩

theorem Ready.tail (h : Ready accepted faults owner (name :: names) d) :
    Ready accepted faults owner names d :=
  ⟨h.owner, h.printable, fun haccepted => (h.free haccepted).tail⟩

theorem printable_pushTensor {g : Graph} :
    (g.pushTensor t).printable ↔ g.printable ∧ t.elementType.printable := by
  simp [Graph.printable, Graph.pushTensor]

theorem Ready.elementType (h : Ready accepted faults owner names d) {id : TensorId}
    (ht : d.session.graph.tensor? id = some t) :
    faults .elementTypeText ∨ t.elementType.printable := by
  refine h.printable.imp_right fun hprintable => ?_
  exact List.all_eq_true.mp hprintable t (List.mem_of_getElem? ht)

end Drafting

theorem Buffer.printable_elementType (b : Buffer) : b.elementType.printable := by
  unfold elementType
  cases b.elements <;> rfl

open Drafting

/-! ## Single tensors -/

theorem liftTensor_safe {σ : Type} {accepted : Prop} {faults : Fault → Prop} {s : σ} {g : Graph}
    {id : TensorId} (h : accepted → (g.tensor? id).isSome) :
    Safe accepted faults (liftGraph (g.tensor id) : EStateM Stop σ Tensor) s fun _ _ => True := by
  refine liftGraph_safe (fun haccepted => ?_) fun e he => ?_
  · obtain ⟨t, ht⟩ := Option.isSome_iff_exists.mp (h haccepted)
    exact ⟨t, Graph.tensor_eq_ok.mpr ht⟩
  · unfold Graph.tensor at he
    split at he
    · cases he
    · cases he
      exact .inr rfl

theorem Edit.addTensor_safe {accepted : Prop} {faults : Fault → Prop} {s : Session} (t : Tensor)
    (h : accepted → s.graph.tensorNamed? t.name = none) :
    Safe accepted faults (Edit.addTensor t) s fun _ s' => s'.graph = s.graph.pushTensor t := by
  unfold addTensor
  refine Safe.step rfl (.ite (fun htaken => ?_) fun _ => Safe.step rfl (Safe.pure rfl))
  refine reject_safe (fun haccepted => ?_) rfl (.inr rfl)
  rw [h haccepted] at htaken
  cases htaken

namespace Draft

variable {accepted : Prop} {faults : Fault → Prop} {owner name : String}
  {names : List String} {d : Drafting} {α : Type}

theorem lift_safe {edit : Edit α} {post : α → Session → Prop}
    (h : Safe accepted faults edit d.session post) :
    Safe accepted faults (lift edit) d fun a d' =>
      post a d'.session ∧ d' = { d with session := d'.session } := by
  unfold Safe at h ⊢
  unfold lift
  cases hrun : edit d.session with
  | ok a s' =>
    rw [hrun] at h
    exact ⟨h, rfl⟩
  | error stop s' =>
    rw [hrun] at h
    cases stop with
    | rejected e => exact h
    | fault fault => exact h

theorem tensor_safe (id : TensorId) (h : accepted → (d.session.graph.tensor? id).isSome) :
    Safe accepted faults (tensor id) d fun _ _ => True := by
  have hlook : Safe accepted faults (do liftGraph ((← Edit.graph).tensor id) : Edit Tensor)
      d.session fun _ _ => True :=
    Safe.step rfl (liftTensor_safe h)
  exact (lift_safe hlook).mono fun _ _ _ => trivial

theorem addTensor_safe {t : Tensor} (h : accepted → d.session.graph.tensorNamed? t.name = none) :
    Safe accepted faults (lift (Edit.addTensor t)) d fun _ d' =>
      d'.session.graph = d.session.graph.pushTensor t ∧ d'.owner = d.owner ∧ d'.count = d.count := by
  refine (lift_safe (Edit.addTensor_safe t h)).mono ?_
  rintro _ d' ⟨hgraph, hd'⟩
  rw [hd']
  exact ⟨hgraph, rfl, rfl⟩

theorem printable_push {t : Tensor} {d' : Drafting} (h : Ready accepted faults owner names d)
    (htype : faults .elementTypeText ∨ t.elementType.printable)
    (hgraph : d'.session.graph = d.session.graph.pushTensor t) :
    faults .elementTypeText ∨ d'.session.graph.printable := by
  rw [hgraph]
  rcases h.printable with hfault | hprintable
  · exact .inl hfault
  · exact htype.imp_right fun htype => printable_pushTensor.mpr ⟨hprintable, htype⟩

theorem named_safe {t : Tensor} (h : Ready accepted faults owner (name :: names) d)
    (hname : accepted → t.name = name) (htype : faults .elementTypeText ∨ t.elementType.printable) :
    Safe accepted faults (lift (Edit.addTensor t)) d fun _ d' =>
      Ready accepted faults owner names d' := by
  refine (addTensor_safe fun haccepted => ?_).mono fun _ d' ⟨hgraph, howner, hcount⟩ => ?_
  · rw [hname haccepted]
    exact ((h.free haccepted).named name List.mem_cons_self).1
  · refine ⟨howner.trans h.owner, printable_push h htype hgraph, fun haccepted => ?_⟩
    exact (h.free haccepted).push_named howner hgraph (hname haccepted) hcount

theorem namedOperand_safe (data : Buffer) (quantization : Option Quantization)
    (h : Ready accepted faults owner (name :: names) d) {name' : String}
    (hname : accepted → name' = name) :
    Safe accepted faults (namedOperand name' data quantization) d fun _ d' =>
      Ready accepted faults owner names d' :=
  named_safe h hname (.inr data.printable_elementType)

theorem namedIntermediate_safe (type : TensorType) (quantization : Option Quantization)
    (h : Ready accepted faults owner (name :: names) d) {name' : String}
    (hname : accepted → name' = name)
    (htype : faults .elementTypeText ∨ type.elementType.printable) :
    Safe accepted faults (namedIntermediate name' type quantization) d fun _ d' =>
      Ready accepted faults owner names d' :=
  named_safe h hname htype

theorem numbered_safe {d₁ : Drafting} {t : Tensor} {role : String}
    (h : Ready accepted faults owner names d) (hrole : role ∈ roles)
    (hsession : d₁.session = d.session) (howner : d₁.owner = d.owner)
    (hcount : ∀ r ∈ roles, d₁.count r = if r = role then d.count r + 1 else d.count r)
    (hname : t.name = generatedName d.owner role (d.count role))
    (htype : faults .elementTypeText ∨ t.elementType.printable) :
    Safe accepted faults (lift (Edit.addTensor t)) d₁ fun _ d' =>
      Ready accepted faults owner names d' := by
  refine (addTensor_safe fun haccepted => ?_).mono fun _ d' ⟨hgraph, howner', hcount'⟩ => ?_
  · rw [hsession, hname]
    exact (h.free haccepted).numbered role hrole _ (Nat.le_refl _)
  · rw [hsession] at hgraph
    refine ⟨howner'.trans (howner.trans h.owner), printable_push h htype hgraph, fun haccepted => ?_⟩
    refine (h.free haccepted).push_numbered (howner'.trans howner) hgraph hrole hname fun r hr => ?_
    rw [hcount', hcount r hr]

theorem operand_safe (data : Buffer) (quantization : Option Quantization)
    (h : Ready accepted faults owner names d) :
    Safe accepted faults (operand data quantization) d fun _ d' =>
      Ready accepted faults owner names d' := by
  have hcount : ∀ r ∈ roles, Drafting.count { d with operands := d.operands + 1 } r = if r = "attr"
      then d.count r + 1 else d.count r := by
    intro r _
    unfold Drafting.count
    split <;> rfl
  unfold operand
  exact Safe.step rfl
    (Safe.step rfl (numbered_safe h (by decide) rfl rfl hcount rfl (.inr data.printable_elementType)))

theorem int32Operand_safe (values : List Int32) (h : Ready accepted faults owner names d) :
    Safe accepted faults (int32Operand values) d fun _ d' => Ready accepted faults owner names d' :=
  operand_safe _ _ h

theorem intermediate_safe (type : TensorType) (quantization : Option Quantization)
    (h : Ready accepted faults owner names d)
    (htype : faults .elementTypeText ∨ type.elementType.printable) :
    Safe accepted faults (intermediate type quantization) d fun _ d' =>
      Ready accepted faults owner names d' := by
  have hcount : ∀ r ∈ roles,
      Drafting.count { d with intermediates := d.intermediates + 1 } r = if r = "transform"
        then d.count r + 1 else d.count r := by
    intro r hr
    simp only [roles, List.mem_cons, List.not_mem_nil, or_false] at hr
    rcases hr with rfl | rfl <;> rfl
  unfold intermediate
  exact Safe.step rfl (Safe.step rfl (numbered_safe h (by decide) rfl rfl hcount rfl htype))

theorem note_safe (event : Event) (h : Ready accepted faults owner names d) :
    Safe accepted faults (note event) d fun _ d' => Ready accepted faults owner names d' :=
  ⟨h.owner, h.printable, fun haccepted =>
    ⟨(h.free haccepted).numbered, (h.free haccepted).named, (h.free haccepted).distinct⟩⟩

theorem run_safe {draft : Draft α} {s : Session} {post : α → Drafting → Prop}
    (h : Safe accepted faults draft ⟨s, owner, 0, 0⟩ post) :
    Safe accepted faults (run owner draft) s fun a s' => ∃ d, d.session = s' ∧ post a d := by
  unfold Safe at h ⊢
  unfold run
  cases hrun : draft ⟨s, owner, 0, 0⟩ with
  | ok a d =>
    rw [hrun] at h
    exact ⟨d, rfl, h⟩
  | error stop d =>
    rw [hrun] at h
    cases stop with
    | rejected e => exact h
    | fault fault => exact h

end Draft

/-! ## Layouts -/

namespace Drafting

variable {d d' : Drafting} {id : TensorId} {t : Tensor}

theorem Before.refl (d : Drafting) : d.Before d.session.graph :=
  List.prefix_refl _

theorem Registered.tensor? (h : Registered d d') (ht : d.session.graph.tensor? id = some t) :
    d'.session.graph.tensor? id = some t :=
  Graph.tensor?_of_extend (Registered.extend h) ht

theorem Registered.trans {d'' : Drafting} (h : Registered d d') (h' : Registered d' d'') :
    Registered d d'' :=
  Relation.ReflTransGen.trans h h'

def Image (d : Drafting) (id : TensorId) : Prop :=
  ∃ t, d.session.graph.tensor? id = some t ∧ t.rank = 4

theorem Image.later (h : d.Image id) (hd' : Registered d d') : d'.Image id := by
  obtain ⟨t, ht, hrank⟩ := h
  exact ⟨t, Registered.tensor? hd' ht, hrank⟩

theorem Image.known (h : d.Image id) : (d.session.graph.tensor? id).isSome := by
  obtain ⟨t, ht, _⟩ := h
  rw [ht]
  rfl

theorem Image.rank (h : d.Image id) (ht : d.session.graph.tensor? id = some t) : t.shape.rank = 4 := by
  obtain ⟨t', ht', hrank⟩ := h
  cases ht.symm.trans ht'
  exact hrank

end Drafting

namespace Layout

variable {accepted : Prop} {faults : Fault → Prop} {owner : String} {names : List String} {d : Drafting}

theorem channelLastCopy_safe (lowering : String) (id : TensorId)
    (h : Ready accepted faults owner names d) (himage : accepted → d.Image id) :
    Safe accepted faults (channelLastCopy lowering id) d fun _ d' =>
      Ready accepted faults owner names d' := by
  unfold channelLastCopy
  refine Safe.andThen (Draft.tensor_ends id)
    (Draft.tensor_safe id fun haccepted => (himage haccepted).known) fun t ht _ => ?_
  have ht := ht _ (Before.refl d)
  refine Safe.andThen (orReject_ends _ _) (orReject_safe (fun haccepted => ?_) rfl (.inr rfl))
    fun shape _ _ => ?_
  · apply Shape.permuted?_isSome_iff.mpr
    rw [(himage haccepted).rank ht]
    decide
  · exact Draft.intermediate_safe _ _ h (h.elementType ht)

theorem bracket_safe (lowering : String) (input output : TensorId)
    (h : Ready accepted faults owner names d) (hinput : accepted → d.Image input)
    (houtput : accepted → d.Image output) :
    Safe accepted faults (bracket lowering input output) d fun _ d' =>
      Ready accepted faults owner names d' := by
  have hopen (d : Drafting) : d.Open 0 := Nat.zero_le _
  unfold bracket
  refine Safe.bind_ends (permutationOperand_ends _ (hopen d)) (Draft.int32Operand_safe _ h)
    fun _ d₁ h₁ _ hready₁ => ?_
  refine Safe.bind_ends (permutationOperand_ends _ (hopen d₁)) (Draft.int32Operand_safe _ hready₁)
    fun _ d₂ h₂ _ hready₂ => ?_
  have hinput₂ : accepted → d₂.Image input := fun haccepted => ((hinput haccepted).later h₁).later h₂
  refine Safe.bind_ends (channelLastCopy_ends lowering input (hopen d₂))
    (channelLastCopy_safe lowering input hready₂ hinput₂) fun _ d₃ h₃ _ hready₃ => ?_
  have houtput₃ : accepted → d₃.Image output :=
    fun haccepted => (((houtput haccepted).later h₁).later h₂).later h₃
  exact (channelLastCopy_safe lowering output hready₃ houtput₃).bind fun _ _ hready₄ =>
    Safe.pure hready₄

theorem permute_safe (lowering : String) (source : TensorId) {perm : List Nat}
    (hperm : IsPermutation perm 4) (h : Ready accepted faults owner names d)
    (hsource : accepted → d.Image source) :
    Safe accepted faults (permute lowering source perm) d fun _ d' =>
      Ready accepted faults owner names d' := by
  have hopen : d.Open 0 := Nat.zero_le _
  unfold permute
  refine Safe.bind_ends (permutationOperand_ends _ hopen) (Draft.int32Operand_safe _ h)
    fun _ d₁ h₁ _ hready₁ => ?_
  have hsource₁ : accepted → d₁.Image source := fun haccepted => (hsource haccepted).later h₁
  refine Safe.andThen (Draft.tensor_ends source)
    (Draft.tensor_safe source fun haccepted => (hsource₁ haccepted).known) fun t ht _ => ?_
  have ht := ht _ (Before.refl d₁)
  refine Safe.andThen (orReject_ends _ _) (orReject_safe (fun haccepted => ?_) rfl (.inr rfl))
    fun shape _ _ => ?_
  · apply Shape.permuted?_isSome_iff.mpr
    rw [(hsource₁ haccepted).rank ht]
    exact hperm
  · exact (Draft.intermediate_safe _ _ hready₁ (hready₁.elementType ht)).bind fun _ _ hready₂ =>
      Safe.pure hready₂

end Layout

/-! ## A unit axis -/

theorem toInt32?_isSome {n : Nat} (h : n ≤ maxInt32) : (toInt32? n).isSome := by
  unfold toInt32?
  rw [if_pos h]
  rfl

theorem Shape.toInt32s?_isSome {s : Shape} (h : ∀ n ∈ s.dims, n ≤ maxInt32) : s.toInt32s?.isSome := by
  unfold toInt32s?
  generalize s.dims = dims at h
  induction dims with
  | nil => rfl
  | cons n rest ih =>
    obtain ⟨hn, hrest⟩ := List.forall_mem_cons.mp h
    obtain ⟨x, hx⟩ := Option.isSome_iff_exists.mp (toInt32?_isSome hn)
    obtain ⟨xs, hxs⟩ := Option.isSome_iff_exists.mp (ih hrest)
    rw [List.mapM_cons, hx, hxs]
    rfl

namespace Lift

variable {accepted : Prop} {faults : Fault → Prop} {owner name : String}
  {names : List String} {d : Drafting}

theorem int32_safe (lowering parameter : String) {value : Nat} (h : accepted → value ≤ maxInt32) :
    Safe accepted faults (int32 lowering parameter value) d fun _ _ => True :=
  orReject_safe (fun haccepted => toInt32?_isSome (h haccepted)) rfl (.inr rfl)

theorem uint32_safe (lowering parameter : String) {value : Nat} (h : accepted → value ≤ maxUInt32) :
    Safe accepted faults (uint32 lowering parameter value) d fun _ _ => True := by
  unfold uint32
  exact .ite (fun _ => Safe.pure trivial) fun hlarge =>
    reject_safe (fun haccepted => hlarge (h haccepted)) rfl (.inr rfl)

theorem int32Shape_safe (lowering : String) {shape : Shape}
    (h : accepted → ∀ n ∈ shape.dims, n ≤ maxInt32) :
    Safe accepted faults (int32Shape lowering shape) d fun _ _ => True :=
  orReject_safe (fun haccepted => Shape.toInt32s?_isSome (h haccepted)) rfl (.inr rfl)

theorem paddedSize_safe (lowering : String) {size padding : Nat}
    (h : accepted → size + padding * 2 ≤ maxSize) :
    Safe accepted faults (paddedSize lowering size padding) d fun _ _ => True := by
  unfold paddedSize
  exact .ite (fun _ => Safe.pure trivial) fun hlarge =>
    reject_safe (fun haccepted => hlarge (h haccepted)) rfl (.inr rfl)

/-- The fault is that of a quantized axis with the largest number. -/
theorem quantization_safe {t : Tensor} (h : faults .quantizedAxis ∨ t.AxisFits) :
    Safe accepted faults (quantization t.quantization) d fun _ _ => True := by
  unfold quantization
  cases hq : t.quantization with
  | none => exact Safe.pure trivial
  | some q =>
    refine (orFault_safe fun hnone => h.resolve_right fun hfits => ?_).bind fun _ _ _ =>
      Safe.pure trivial
    unfold Quantization.insertAxis? at hnone
    split at hnone
    · cases hnone
    · next a ha =>
      have hlt : a < maxSize := hfits q hq a ha
      rw [if_pos hlt] at hnone
      split at hnone
      · cases hnone
      · cases hnone

theorem reshape_safe (lowering : String) (source : TensorId) {shape : Shape} (result : TensorId)
    (h : Ready accepted faults owner names d) (hshape : accepted → ∀ n ∈ shape.dims, n ≤ maxInt32) :
    Safe accepted faults (reshape lowering source shape result) d fun _ d' =>
      Ready accepted faults owner names d' := by
  unfold reshape
  refine Safe.andThen (int32Shape_ends _ _) (int32Shape_safe lowering hshape) fun dims _ _ => ?_
  exact (Draft.int32Operand_safe _ h).bind fun _ _ hready => Safe.pure hready

def Expandable (d : Drafting) (owner name : String) (id : TensorId) : Prop :=
  ∃ t, d.session.graph.tensor? id = some t ∧ operandName owner t.name = name ∧
    ∀ n ∈ (t.shape.insertAxis axis).dims, n ≤ maxInt32

theorem expand_safe (lowering : String) (id : TensorId)
    (h : Ready accepted faults owner (name :: names) d)
    (haxis : ∀ t, d.session.graph.tensor? id = some t → faults .quantizedAxis ∨ t.AxisFits)
    (haccepts : accepted → Expandable d owner name id) :
    Safe accepted faults (expand lowering id) d fun _ d' => Ready accepted faults owner names d' := by
  unfold expand
  refine Safe.andThen (Draft.tensor_ends id) (Draft.tensor_safe id fun haccepted => ?_) fun t ht _ => ?_
  · obtain ⟨t, ht, _⟩ := haccepts haccepted
    rw [ht]
    rfl
  have ht := ht _ (Before.refl d)
  have hexpands : accepted → operandName owner t.name = name ∧
      ∀ n ∈ (t.shape.insertAxis axis).dims, n ≤ maxInt32 := by
    intro haccepted
    obtain ⟨t', ht', hexpands⟩ := haccepts haccepted
    cases ht.symm.trans ht'
    exact hexpands
  refine Safe.andThen (quantization_ends _) (quantization_safe (haxis t ht)) fun q _ _ =>
    Safe.step rfl ?_
  refine (Draft.namedIntermediate_safe _ _ h (fun haccepted => ?_) (h.elementType ht)).bind
    fun expanded d₁ hready₁ => ?_
  · rw [h.owner]
    exact (hexpands haccepted).1
  · refine (reshape_safe lowering id expanded hready₁ fun haccepted => (hexpands haccepted).2).bind
      fun _ _ hready₂ => ?_
    exact Safe.pure hready₂

theorem collapse_safe (lowering : String) (id : TensorId)
    (h : Ready accepted faults owner (name :: names) d)
    (haxis : ∀ t, d.session.graph.tensor? id = some t → faults .quantizedAxis ∨ t.AxisFits)
    (haccepts : accepted → outputName owner = name ∧
      ∃ t, d.session.graph.tensor? id = some t ∧ ∀ n ∈ t.shape.dims, n ≤ maxInt32) :
    Safe accepted faults (collapse lowering id) d fun _ d' => Ready accepted faults owner names d' := by
  unfold collapse
  refine Safe.andThen (Draft.tensor_ends id) (Draft.tensor_safe id fun haccepted => ?_) fun t ht _ => ?_
  · obtain ⟨_, t, ht, _⟩ := haccepts haccepted
    rw [ht]
    rfl
  have ht := ht _ (Before.refl d)
  refine Safe.andThen (quantization_ends _) (quantization_safe (haxis t ht)) fun q _ _ =>
    Safe.step rfl ?_
  refine (Draft.namedIntermediate_safe _ _ h (fun haccepted => ?_) (h.elementType ht)).bind
    fun expanded d₁ hready₁ => ?_
  · rw [h.owner]
    exact (haccepts haccepted).1
  · refine (reshape_safe lowering expanded id hready₁ fun haccepted => ?_).bind fun _ _ hready₂ =>
      Safe.pure hready₂
    obtain ⟨_, t', ht', hsizes⟩ := haccepts haccepted
    cases ht.symm.trans ht'
    exact hsizes

/-- A weight that can get a unit axis. The buffer of a constant one has to have as many elements as
its shape. -/
def ExpandableWeight (d : Drafting) (owner name : String) (id : TensorId) : Prop :=
  ∃ t, d.session.graph.tensor? id = some t ∧ operandName owner t.name = name ∧
    (t.isConstant → (t.data.bind (·.reshaped? (t.shape.insertAxis axis))).isSome) ∧
    (¬ t.isConstant → ∀ n ∈ (t.shape.insertAxis axis).dims, n ≤ maxInt32)

theorem expandConstant_safe (lowering : String) (id : TensorId)
    (h : Ready accepted faults owner (name :: names) d)
    (haxis : ∀ t, d.session.graph.tensor? id = some t → faults .quantizedAxis ∨ t.AxisFits)
    (haccepts : accepted → ∃ t, d.session.graph.tensor? id = some t ∧ operandName owner t.name =
      name ∧ (t.data.bind (·.reshaped? (t.shape.insertAxis axis))).isSome) :
    Safe accepted faults (expandConstant lowering id) d fun _ d' =>
      Ready accepted faults owner names d' := by
  unfold expandConstant
  refine Safe.andThen (Draft.tensor_ends id) (Draft.tensor_safe id fun haccepted => ?_) fun t ht _ => ?_
  · obtain ⟨t, ht, _⟩ := haccepts haccepted
    rw [ht]
    rfl
  have ht := ht _ (Before.refl d)
  have hexpands : accepted → operandName owner t.name = name ∧
      (t.data.bind (·.reshaped? (t.shape.insertAxis axis))).isSome := by
    intro haccepted
    obtain ⟨t', ht', hexpands⟩ := haccepts haccepted
    cases ht.symm.trans ht'
    exact hexpands
  refine Safe.andThen (orReject_ends _ _)
    (orReject_safe (fun haccepted => (hexpands haccepted).2) rfl (.inr rfl)) fun data _ _ => ?_
  refine Safe.andThen (quantization_ends _) (quantization_safe (haxis t ht)) fun q _ _ =>
    Safe.step rfl ?_
  refine Draft.namedOperand_safe _ _ h fun haccepted => ?_
  rw [h.owner]
  exact (hexpands haccepted).1

theorem expandWeight_safe (lowering : String) (id : TensorId)
    (h : Ready accepted faults owner (name :: names) d)
    (haxis : ∀ t, d.session.graph.tensor? id = some t → faults .quantizedAxis ∨ t.AxisFits)
    (haccepts : accepted → ExpandableWeight d owner name id) :
    Safe accepted faults (expandWeight lowering id) d fun _ d' =>
      Ready accepted faults owner names d' := by
  unfold expandWeight
  refine Safe.andThen (Draft.tensor_ends id) (Draft.tensor_safe id fun haccepted => ?_) fun t ht _ => ?_
  · obtain ⟨t, ht, _⟩ := haccepts haccepted
    rw [ht]
    rfl
  have ht := ht _ (Before.refl d)
  refine .ite (fun hconstant => ?_) fun hcomputed => ?_
  · refine (expandConstant_safe lowering id h haxis fun haccepted => ?_).bind fun _ _ hready =>
      Safe.pure hready
    obtain ⟨t', ht', hname, hreshaped, _⟩ := haccepts haccepted
    cases ht.symm.trans ht'
    exact ⟨t, ht, hname, hreshaped hconstant⟩
  · refine (expand_safe lowering id h haxis fun haccepted => ?_).bind fun _ _ hready => Safe.pure hready
    obtain ⟨t', ht', hname, _, hsizes⟩ := haccepts haccepted
    cases ht.symm.trans ht'
    exact ⟨t, ht, hname, hsizes hcomputed⟩

theorem rank_safe (lowering : String) (input weight output : TensorId)
    (haccepts : accepted →
      ∃ rank, (rank = 3 ∨ rank = 4) ∧ Ranked d.session.graph input weight output rank) :
    Safe accepted faults (rank lowering input weight output) d fun _ _ => True := by
  have hknown : accepted → (d.session.graph.tensor? input).isSome ∧
      (d.session.graph.tensor? weight).isSome ∧
      (d.session.graph.tensor? output).isSome := by
    intro haccepted
    obtain ⟨_, _, x, w, y, hx, hw, hy, _⟩ := haccepts haccepted
    simp [hx, hw, hy]
  unfold rank
  refine Safe.andThen (Draft.tensor_ends input)
    (Draft.tensor_safe input fun haccepted => (hknown haccepted).1) fun x hx _ => ?_
  refine Safe.andThen (Draft.tensor_ends weight)
    (Draft.tensor_safe weight fun haccepted => (hknown haccepted).2.1) fun w hw _ => ?_
  refine Safe.andThen (Draft.tensor_ends output)
    (Draft.tensor_safe output fun haccepted => (hknown haccepted).2.2) fun y hy _ => ?_
  have hranks : accepted → (x.rank = 3 ∨ x.rank = 4) ∧ w.rank = x.rank ∧ y.rank = x.rank := by
    intro haccepted
    obtain ⟨rank, hrank, hranked⟩ := haccepts haccepted
    obtain ⟨hxRank, hwRank, hyRank⟩ :=
      hranked.ranks (hx _ (Before.refl d)) (hw _ (Before.refl d)) (hy _ (Before.refl d))
    omega
  refine .ite (fun hunsupported => ?_) fun _ => .ite (fun hdifferent => ?_) fun _ => Safe.pure trivial
  · refine reject_safe (fun haccepted => ?_) rfl (.inr rfl)
    have := hranks haccepted
    omega
  · refine reject_safe (fun haccepted => ?_) rfl (.inr rfl)
    have := hranks haccepted
    omega

/-- The operands of a convolution that can be made two-dimensional. The names are those of the
operands and the output with a unit axis. -/
structure Liftable (owner : String) (x w y : Tensor) (params : ConvParams)
    (names : List String) : Prop where
  rank : x.rank = 3 ∨ x.rank = 4
  ranks : w.rank = x.rank ∧ y.rank = x.rank
  valid : parameterObjection? params (x.rank - 2) = none
  names : names = [operandName owner x.name, operandName owner w.name, outputName owner]
  input : x.rank = 3 → ∀ n ∈ x.shape.dims, n ≤ maxInt32
  weight : x.rank = 3 → (w.isConstant → (w.data.bind (·.reshaped? (w.shape.insertAxis axis))).isSome) ∧
    (¬ w.isConstant → ∀ n ∈ w.shape.dims, n ≤ maxInt32)
  output : x.rank = 3 → ∀ n ∈ y.shape.dims, n ≤ maxInt32

theorem printable_parameterObjection (lowering : String) {params : ConvParams} {spatial : Nat}
    {objection : Objection} (h : parameterObjection? params spatial = some objection) :
    (LowerError.precondition lowering objection).printable := by
  have hmentions : objection.mentions = [] := by
    unfold parameterObjection? at h
    rw [Option.orElse_eq_orElse, Option.orElse_eq_or] at h
    rcases Option.or_eq_some_iff.mp h with hcount | ⟨_, hpositive⟩
    · obtain ⟨⟨parameter, entries⟩, _, hfound⟩ := List.exists_of_findSome?_eq_some hcount
      dsimp only at hfound
      split at hfound
      · cases hfound
      · cases hfound
        rfl
    · obtain ⟨⟨parameter, entries⟩, _, hfound⟩ := List.exists_of_findSome?_eq_some hpositive
      dsimp only at hfound
      split at hfound
      · cases hfound
        rfl
      · cases hfound
  show objection.mentions.all ElementType.printable = true
  rw [hmentions]
  rfl

theorem mem_insertAxis {shape : Shape} {n : Nat} (h : n ∈ (shape.insertAxis axis).dims) :
    n = 1 ∨ n ∈ shape.dims := by
  unfold Shape.insertAxis at h
  exact List.eq_or_mem_of_mem_insertIdx h

end Lift

theorem Draft.liftConvolution_safe {accepted : Prop} {faults : Fault → Prop} {owner : String}
    {names : List String} {d : Drafting} (lowering : String) {input weight output : TensorId}
    {params : ConvParams} (h : Ready accepted faults owner names d)
    (haxes : ∀ id ∈ [input, weight, output], ∀ t, d.session.graph.tensor? id = some t →
      faults .quantizedAxis ∨ t.AxisFits)
    (haccepts : accepted →
      ∃ x w y, d.session.graph.tensor? input = some x ∧ d.session.graph.tensor? weight = some w ∧
      d.session.graph.tensor? output = some y ∧ Lift.Liftable owner x w y params names) :
    Safe accepted faults (liftConvolution lowering input weight output params) d fun _ d' =>
      Ready accepted faults owner [] d' := by
  have hopen (d : Drafting) : d.Open 0 := Nat.zero_le _
  obtain ⟨a, b, c, hready, haccepts⟩ : ∃ a b c, Ready accepted faults owner [a, b, c] d ∧
      (accepted → ∃ x w y,
      d.session.graph.tensor? input = some x ∧ d.session.graph.tensor? weight = some w ∧
      d.session.graph.tensor? output = some y ∧ Lift.Liftable owner x w y params [a, b, c]) := by
    by_cases haccepted : accepted
    · obtain ⟨x, w, y, hx, hw, hy, hliftable⟩ := haccepts haccepted
      obtain rfl := hliftable.names
      exact ⟨_, _, _, h, fun _ => ⟨x, w, y, hx, hw, hy, hliftable⟩⟩
    · exact ⟨"", "", "", ⟨h.owner, h.printable, fun haccepted' => absurd haccepted' haccepted⟩,
        fun haccepted' => absurd haccepted' haccepted⟩
  unfold liftConvolution
  refine Safe.andThen (Lift.rank_ends lowering input weight output)
    (Lift.rank_safe lowering input weight output fun haccepted => ?_) fun rank ⟨hrank, hranked⟩ _ => ?_
  · obtain ⟨x, w, y, hx, hw, hy, hliftable⟩ := haccepts haccepted
    exact ⟨x.rank, hliftable.rank, x, w, y, hx, hw, hy, rfl, hliftable.ranks⟩
  obtain ⟨x, w, y, hx, hw, hy, hxRank, _, _⟩ := hranked _ (Before.refl d)
  have hliftable : accepted → Lift.Liftable owner x w y params [a, b, c] := by
    intro haccepted
    obtain ⟨x', w', y', hx', hw', hy', hliftable⟩ := haccepts haccepted
    cases hx.symm.trans hx'
    cases hw.symm.trans hw'
    cases hy.symm.trans hy'
    exact hliftable
  split
  · next objection hobjection =>
    refine reject_safe (fun haccepted => ?_) rfl
      (.inr (Lift.printable_parameterObjection lowering hobjection))
    have hvalid := (hliftable haccepted).valid
    rw [hxRank, hobjection] at hvalid
    cases hvalid
  · refine .ite (fun _ => Safe.pure hready.tail.tail.tail) fun hfour => ?_
    have hthree : x.rank = 3 := by omega
    have hsizes (t : Tensor) (hdims : ∀ n ∈ t.shape.dims, n ≤ maxInt32) :
        ∀ n ∈ (t.shape.insertAxis Lift.axis).dims, n ≤ maxInt32 := by
      intro n hn
      rcases Lift.mem_insertAxis hn with rfl | hn
      · decide
      · exact hdims n hn
    refine Safe.bind_ends (Lift.expand_ends lowering input (hopen d))
      (Lift.expand_safe lowering input hready (haxes input (by simp)) fun haccepted => ?_)
      fun x' d₁ h₁ _ hready₁ => ?_
    · obtain ⟨ha, _⟩ := List.cons.inj (hliftable haccepted).names
      exact ⟨x, hx, ha.symm, hsizes x ((hliftable haccepted).input hthree)⟩
    have hw₁ := Registered.tensor? h₁ hw
    refine Safe.bind_ends (Lift.expandWeight_ends lowering weight (hopen d₁))
      (Lift.expandWeight_safe lowering weight hready₁ (fun t ht => ?_) fun haccepted => ?_)
      fun w' d₂ h₂ _ hready₂ => ?_
    · cases hw₁.symm.trans ht
      exact haxes weight (by simp) w hw
    · obtain ⟨_, hnames⟩ := List.cons.inj (hliftable haccepted).names
      obtain ⟨hreshaped, hdims⟩ := (hliftable haccepted).weight hthree
      exact ⟨w, hw₁, (List.cons.inj hnames).1.symm, hreshaped,
        fun hcomputed => hsizes w (hdims hcomputed)⟩
    have hy₂ := Registered.tensor? h₂ (Registered.tensor? h₁ hy)
    refine (Lift.collapse_safe lowering output hready₂ (fun t ht => ?_) fun haccepted => ?_).bind
      fun _ _ hready₃ => Safe.pure hready₃
    · cases hy₂.symm.trans ht
      exact haxes output (by simp) y hy
    · obtain ⟨_, hnames⟩ := List.cons.inj (hliftable haccepted).names
      obtain ⟨hc, _⟩ := List.cons.inj (List.cons.inj hnames).2
      exact ⟨hc.symm, y, hy₂, (hliftable haccepted).output hthree⟩

end GraphLowering
