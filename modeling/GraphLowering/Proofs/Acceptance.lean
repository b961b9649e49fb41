import GraphLowering.Proofs.Outlines
import GraphLowering.Proofs.Refusals

/-!
# Why a lowering makes no outline

For each of the three lowerings, the faults in which its draft can end, and a condition on the
operands and parameters of the node under which the draft is not rejected (`Convolution.Acceptable`,
`TransposedConvolution.Acceptable`, `BatchNorm.Acceptable`).
-/

namespace GraphLowering

open Drafting

variable {accepted : Prop} {faults : Fault → Prop} {owner : String} {names : List String} {d : Drafting}

theorem Elements.width_bounds (elements : Elements) :
    1 ≤ elements.elementType.width.toNat ∧ elements.elementType.width.toNat ≤ 8 := by
  cases elements <;> exact ⟨Nat.le_of_ble_eq_true rfl, Nat.le_of_ble_eq_true rfl⟩

theorem Buffer.fits_vector {elements : Elements} :
    (vector elements).fits ↔ elements.elementType.width.toNat * elements.size ≤ maxBufferSize := by
  have haddressable (h : elements.size ≤ maxBufferSize) : (vector elements).shape.addressable := by
    rw [Shape.addressable_iff]
    show ([elements.size].filter (· ≠ 0)).prod ≤ maxBufferSize
    by_cases hzero : elements.size = 0
    · rw [hzero]
      decide
    · simpa [hzero] using h
  have hwidth := Nat.mul_le_mul_right elements.size elements.width_bounds.1
  unfold fits
  rw [Bool.and_eq_true, decide_eq_true_eq]
  refine and_iff_right_of_imp fun hbytes => haddressable ?_
  have hbytes : elements.elementType.width.toNat * elements.size ≤ maxBufferSize := hbytes
  omega

/-! ## Convolution -/

namespace Convolution

/-- A bias that the lowering has to make fits into memory: four-byte zeros if there is none, and the
copies of one element if the given bias has not one for each output channel. -/
def BiasFits (bias : Option Tensor) (channels : Nat) : Prop :=
  match bias with
  | none => 4 * channels ≤ maxBufferSize
  | some t =>
    t.shape.elementCount ≠ channels →
      ∀ data ∈ t.data, data.elementType.width.toNat * channels ≤ maxBufferSize

theorem zeroBias_safe {channels : Nat} (inputType : ElementType)
    (input weight : Option Quantization) (h : Ready accepted faults owner names d)
    (hbuffer : ¬ BiasFits none channels → faults .bufferSize) :
    Safe accepted faults (zeroBias channels inputType input weight) d fun _ d' =>
      Ready accepted faults owner names d' := by
  unfold zeroBias
  refine .ite (fun _ => ?_) fun _ => ?_
  all_goals
    refine Safe.andThen (allocate_ends _) (allocate_safe fun hnot => hbuffer fun hfits => hnot ?_)
      fun data _ _ => Draft.operand_safe _ _ h
    exact Buffer.fits_vector.mpr hfits

theorem fits_copies {data copies : Buffer} {channels : Nat}
    (h : data.repeatFirst? channels = some copies) :
    copies.fits ↔ data.elementType.width.toNat * channels ≤ maxBufferSize := by
  obtain ⟨elements, helements, rfl⟩ := Option.map_eq_some_iff.mp h
  rw [Buffer.fits_vector, Elements.size_repeatFirst? helements,
    Elements.elementType_repeatFirst? helements]
  rfl

/-- A bias that has one element for each output channel, or one that can be repeated. -/
def AcceptsBias (g : Graph) (channels : Nat) (id : TensorId) : Prop :=
  ∃ t, g.tensor? id = some t ∧
    (t.shape.elementCount = channels ∨ t.shape.elementCount = 1 ∧
      (t.data.bind (·.repeatFirst? channels)).isSome)

theorem channelBias_safe (id : TensorId) {channels : Nat} (h : Ready accepted faults owner names d)
    (hbuffer : ¬ BiasFits (d.session.graph.tensor? id) channels → faults .bufferSize)
    (haccepts : accepted → AcceptsBias d.session.graph channels id) :
    Safe accepted faults (channelBias id channels) d fun _ d' =>
      Ready accepted faults owner names d' := by
  unfold channelBias
  refine Safe.andThen (Draft.tensor_ends id) (Draft.tensor_safe id fun haccepted => ?_) fun t ht _ => ?_
  · obtain ⟨t, ht, _⟩ := haccepts haccepted
    rw [ht]
    rfl
  have ht := ht _ (Before.refl d)
  have hbias : accepted → t.shape.elementCount = channels ∨
      t.shape.elementCount = 1 ∧ (t.data.bind (·.repeatFirst? channels)).isSome := by
    intro haccepted
    obtain ⟨t', ht', hbias⟩ := haccepts haccepted
    cases ht.symm.trans ht'
    exact hbias
  refine .ite (fun _ => Safe.pure h) fun hother => .ite (fun hlength => ?_) fun _ => ?_
  · refine reject_safe (fun haccepted => ?_) rfl (.inr rfl)
    have := hbias haccepted
    omega
  · refine Safe.andThen (orReject_ends _ _) (orReject_safe (fun haccepted => ?_) rfl (.inr rfl))
      fun copies hcopies _ => ?_
    · exact ((hbias haccepted).resolve_left hother).2
    refine Safe.andThen (allocate_ends _) (allocate_safe fun hnot => hbuffer fun hfits => hnot ?_)
      fun allocated _ _ => Draft.operand_safe _ _ h
    obtain ⟨data, hdata, hcopied⟩ := Option.bind_eq_some_iff.mp hcopies
    rw [ht] at hfits
    exact (fits_copies hcopied).mpr (hfits hother data hdata)

theorem biasOperand_safe (n : Convolution) {channels : Nat} (x w : Tensor)
    (h : Ready accepted faults owner names d)
    (hbuffer : ¬ BiasFits (n.bias.bind d.session.graph.tensor?) channels → faults .bufferSize)
    (haccepts : accepted → ∀ id ∈ n.bias, AcceptsBias d.session.graph channels id) :
    Safe accepted faults (n.biasOperand channels x w) d fun _ d' =>
      Ready accepted faults owner names d' := by
  unfold biasOperand
  cases hbias : n.bias with
  | none =>
    rw [hbias] at hbuffer
    exact zeroBias_safe _ _ _ h hbuffer
  | some id =>
    rw [hbias] at hbuffer
    exact channelBias_safe id h hbuffer fun haccepted => haccepts haccepted id hbias

theorem totalChannels_safe {groupWidth groups : Nat}
    (h : maxSize < groupWidth * groups → faults .channelProduct) :
    Safe accepted faults (totalChannels groupWidth groups) d fun _ _ => True := by
  unfold totalChannels
  exact .ite (fun _ => Safe.pure trivial) fun hlarge => faulty_safe (h (Nat.lt_of_not_le hlarge))

theorem warnings_safe {options : Options} {depthwise : Bool} {inputChannels groupWidth : Nat}
    (groups : Nat) (h : Ready accepted faults owner names d)
    (haccepts : accepted → ¬ (options.denyGrouped ∧ ¬ depthwise ∧ inputChannels ≠ groupWidth)) :
    Safe accepted faults (warnings options depthwise inputChannels groupWidth groups) d fun _ d' =>
      Ready accepted faults owner names d' := by
  unfold warnings
  refine .ite (fun hgrouped => ?_) fun _ => Safe.pure h
  unfold grouped
  refine Safe.step rfl (.ite (fun hdeny => ?_) fun _ => ?_)
  · exact reject_safe (fun haccepted => haccepts haccepted ⟨hdeny, hgrouped⟩) rfl (.inr rfl)
  · exact (Draft.note_safe _ h).bind fun _ _ hready => Safe.pure hready

theorem pad_safe {id : TensorId} {t : Tensor} {ph pw batch height width channels : Nat}
    (h : Ready accepted faults owner names d) (ht : d.session.graph.tensor? id = some t)
    (himage : t.shape.dims = [batch, height, width, channels])
    (haccepts : accepted → (ph ≤ maxInt32 ∧ height + ph * 2 ≤ maxSize) ∧
      (pw ≤ maxInt32 ∧ width + pw * 2 ≤ maxSize)) :
    Safe accepted faults (pad id [ph, pw]) d fun _ d' => Ready accepted faults owner names d' := by
  unfold pad
  refine Safe.step (a := (ph, pw)) rfl ?_
  refine Safe.andThen (Draft.tensor_ends id) (Draft.tensor_safe id fun _ => by rw [ht]; rfl)
    fun t' ht' _ => ?_
  cases ht.symm.trans (ht' _ (Before.refl d))
  rw [himage]
  refine Safe.step (a := height) rfl (Safe.andThen (Lift.paddedSize_ends _ _ _)
    (Lift.paddedSize_safe _ fun haccepted => (haccepts haccepted).1.2) fun _ _ _ => ?_)
  refine Safe.step (a := width) rfl (Safe.andThen (Lift.paddedSize_ends _ _ _)
    (Lift.paddedSize_safe _ fun haccepted => (haccepts haccepted).2.2) fun _ _ _ => ?_)
  refine Safe.andThen (Lift.int32_ends _ _ _)
    (Lift.int32_safe _ _ fun haccepted => (haccepts haccepted).1.1) fun _ _ _ => ?_
  refine Safe.andThen (Lift.int32_ends _ _ _)
    (Lift.int32_safe _ _ fun haccepted => (haccepts haccepted).2.1) fun _ _ _ => ?_
  refine (Draft.intermediate_safe _ _ h (h.elementType ht)).bind fun _ _ hready => ?_
  exact (Draft.operand_safe _ _ hready).bind fun _ _ hready => Safe.pure hready

theorem padIfNeeded_safe {id : TensorId} {t : Tensor} {params : ConvParams}
    {batch height width channels : Nat} (h : Ready accepted faults owner names d)
    (ht : d.session.graph.tensor? id = some t)
    (himage : t.shape.dims = [batch, height, width, channels])
    (hentries : params.padding.length = 2)
    (haccepts : accepted → params.hasPadding →
      ∀ p ∈ params.padding.zip [height, width], p.1 ≤ maxInt32 ∧ p.2 + p.1 * 2 ≤ maxSize) :
    Safe accepted faults (padIfNeeded id params) d fun _ d' =>
      Ready accepted faults owner names d' := by
  obtain ⟨ph, pw, hpadding⟩ := List.length_eq_two.mp hentries
  unfold padIfNeeded
  refine .ite (fun hpadded => ?_) fun _ => Safe.pure h
  rw [hpadding] at haccepts ⊢
  refine (pad_safe h ht himage fun haccepted => ?_).bind fun _ _ hready => Safe.pure hready
  exact ⟨haccepts haccepted hpadded _ List.mem_cons_self,
    haccepts haccepted hpadded _ (List.mem_cons_of_mem _ List.mem_cons_self)⟩

/-- The weight has more input channels in all groups than there are sizes. -/
def Overflows (n : Convolution) (g : Graph) : Prop :=
  ∃ w groupWidth, g.tensor? n.weight = some w ∧ w.shape.dims[1]? = some groupWidth ∧
    maxSize < groupWidth * n.params.groups

/-- The weight has so many output channels that a bias may not fit into memory. -/
def Overfills (n : Convolution) (g : Graph) : Prop :=
  ∃ w channels, g.tensor? n.weight = some w ∧ w.shape.dims[0]? = some channels ∧
    maxBufferSize < 8 * channels

/-- The weight has so many output channels that the bias that the lowering has to make does not fit
into memory. -/
def Exceeds (n : Convolution) (g : Graph) : Prop :=
  ∃ w channels, g.tensor? n.weight = some w ∧ w.shape.dims[0]? = some channels ∧
    ¬ BiasFits (n.bias.bind g.tensor?) channels

theorem Exceeds.overfills {n : Convolution} {g g' : Graph} {w : Tensor} (h : n.Exceeds g')
    (hextend : g.tensors <+: g'.tensors) (hw : g.tensor? n.weight = some w) : n.Overfills g := by
  obtain ⟨w', channels, hw', hchannels, hexceeds⟩ := h
  cases hw'.symm.trans (Graph.tensor?_of_extend hextend hw)
  refine ⟨w, channels, hw, hchannels, Nat.lt_of_not_le fun hle => hexceeds ?_⟩
  unfold BiasFits
  split
  · omega
  · intro _ data _
    exact Nat.le_trans (Nat.mul_le_mul_right channels data.elements.width_bounds.2) hle

structure Acceptable (n : Convolution) (options : Options) (owner : String)
    (g : Graph) (names : List String) (x w y : Tensor) :
    Prop where
  input : g.tensor? n.input = some x
  weight : g.tensor? n.weight = some w
  output : g.tensor? n.output = some y
  liftable : Lift.Liftable owner x w y n.params names
  channels : x.shape.dims.getD 1 0 = w.shape.dims.getD 1 0 * n.params.groups
  strides : ∀ s ∈ n.params.stride, s ≤ maxUInt32
  dilations : ∀ s ∈ n.params.dilation, s ≤ maxUInt32
  grouped : ¬ (options.denyGrouped ∧ x.shape.dims.getD 1 0 ≠ w.shape.dims.getD 1 0 ∧
    ¬ (w.shape.dims.getD 1 0 = 1 ∧ w.shape.dims.getD 0 0 = n.params.groups))
  padding : n.params.hasPadding →
    ∀ p ∈ n.params.padding.zip (x.shape.dims.drop 2), p.1 ≤ maxInt32 ∧ p.2 + p.1 * 2 ≤ maxSize
  bias : ∀ id ∈ n.bias, AcceptsBias g (w.shape.dims.getD 0 0) id

theorem AcceptsBias.later {g g' : Graph} {channels : Nat} {id : TensorId}
    (h : AcceptsBias g channels id) (hextend : g.tensors <+: g'.tensors) :
    AcceptsBias g' channels id := by
  obtain ⟨t, ht, hbias⟩ := h
  exact ⟨t, Graph.tensor?_of_extend hextend ht, hbias⟩

theorem Survey.Holds.operandChannels {n : Convolution} {g : Graph} {first : Nat} {q : Survey}
    {x w : Tensor} (h : q.Holds n g first) (hx : g.tensor? n.input = some x)
    (hw : g.tensor? n.weight = some w) :
    x.shape.dims[1]? = some (q.groupWidth * n.params.groups) ∧
      w.shape.dims[0]? = some q.outputChannels ∧
      w.shape.dims[1]? = some q.groupWidth ∧ q.lifted.params.groups = n.params.groups := by
  obtain ⟨x₁, w₁, y, x', w', y', hraised⟩ := h.lifts.raised
  cases hx.symm.trans hraised.input
  cases hw.symm.trans hraised.weight
  cases hraised.lays.input.symm.trans h.input
  cases hraised.lays.weight.symm.trans h.weight
  rw [← Lift.getElem?_raise x.shape.dims Nat.one_lt_two,
    ← Lift.getElem?_raise w.shape.dims Nat.one_lt_two, ← Lift.getElem?_raise w.shape.dims Nat.two_pos,
    ← hraised.inputDims, ← hraised.weightDims, ← hraised.groups]
  exact ⟨h.inputChannels, h.outputChannels, h.groupWidth, rfl⟩

theorem Acceptable.later {n : Convolution} {options : Options} {d₁ : Drafting} {x w y : Tensor}
    (h : ∃ x w y, n.Acceptable options owner d.session.graph names x w y)
    (hlater : Registered d d₁) (hx : d₁.session.graph.tensor? n.input = some x)
    (hw : d₁.session.graph.tensor? n.weight = some w)
    (hy : d₁.session.graph.tensor? n.output = some y) :
    n.Acceptable options owner d.session.graph names x w y := by
  obtain ⟨x₀, w₀, y₀, hacceptable⟩ := h
  cases (Registered.tensor? hlater hacceptable.input).symm.trans hx
  cases (Registered.tensor? hlater hacceptable.weight).symm.trans hw
  cases (Registered.tensor? hlater hacceptable.output).symm.trans hy
  exact hacceptable

theorem survey_safe (n : Convolution) (options : Options)
    (h : Ready accepted faults owner names d)
    (haxes : ∀ id ∈ [n.input, n.weight, n.output], ∀ t, d.session.graph.tensor? id = some t →
      faults .quantizedAxis ∨ t.AxisFits)
    (hlarge : ∀ l d', Draft.liftConvolution lowering n.input n.weight n.output n.params d =
      .ok l d' → n.Overflows d'.session.graph → faults .channelProduct)
    (haccepts : accepted → ∃ x w y, n.Acceptable options owner d.session.graph names x w y) :
    Safe accepted faults n.survey d fun q d' => Ready accepted faults owner [] d' ∧
      Draft.liftConvolution lowering n.input n.weight n.output n.params d = .ok q.lifted d' := by
  have hopen (d : Drafting) : d.Open 0 := Nat.zero_le _
  unfold survey
  refine Safe.bind_ends (Draft.liftConvolution_ends _ _ _ _ _ (hopen d))
    (Draft.liftConvolution_safe _ h haxes fun haccepted => ?_).with_run
    fun l d₁ h₁ hl ⟨hrun, hready₁⟩ => ?_
  · obtain ⟨x, w, y, hacceptable⟩ := haccepts haccepted
    exact ⟨x, w, y, hacceptable.input, hacceptable.weight, hacceptable.output, hacceptable.liftable⟩
  obtain ⟨x, w, y, x', w', y', hraised⟩ := (hl _ (Before.refl d₁)).raised
  have hacceptable (haccepted : accepted) :=
    Acceptable.later (haccepts haccepted) h₁ hraised.input hraised.weight hraised.output
  -- the operands are images, and the parameters have two entries
  obtain ⟨batch, inputChannels, height, width, hxDims⟩ := List.length_eq_four.mp hraised.lays.ranks.1
  obtain ⟨outputChannels, groupWidth, kernelHeight, kernelWidth, hwDims⟩ :=
    List.length_eq_four.mp hraised.lays.ranks.2.1
  obtain ⟨⟨hstride, _, hdilation⟩, _⟩ := Lift.parameterObjection?_eq_none.mp hraised.lays.valid
  obtain ⟨sh, sw, hstride⟩ := List.length_eq_two.mp hstride
  obtain ⟨dh, dw, hdilation⟩ := List.length_eq_two.mp hdilation
  obtain ⟨_, hinputChannels⟩ := Lift.entries_of_raise hraised.inputDims hxDims
  obtain ⟨_, hgroupWidth⟩ := Lift.entries_of_raise hraised.weightDims hwDims
  have hstrides (haccepted : accepted) : ∀ s ∈ l.params.stride, s ≤ maxUInt32 :=
    (hraised.strides (by decide)).mpr (hacceptable haccepted).strides
  have hdilations (haccepted : accepted) : ∀ s ∈ l.params.dilation, s ≤ maxUInt32 :=
    (hraised.dilations (by decide)).mpr (hacceptable haccepted).dilations
  refine Safe.andThen (Draft.tensor_ends _)
    (Draft.tensor_safe _ fun _ => by rw [hraised.lays.input]; rfl) fun x₁ hx₁ _ => ?_
  cases hraised.lays.input.symm.trans (hx₁ _ (Before.refl d₁))
  rw [hxDims]
  refine Safe.step (a := inputChannels) rfl ?_
  refine Safe.andThen (Draft.tensor_ends _)
    (Draft.tensor_safe _ fun _ => by rw [hraised.lays.weight]; rfl) fun w₁ hw₁ _ => ?_
  cases hraised.lays.weight.symm.trans (hw₁ _ (Before.refl d₁))
  rw [hwDims]
  refine Safe.step (a := outputChannels) rfl (Safe.step (a := groupWidth) rfl ?_)
  refine Safe.andThen (totalChannels_ends _ _)
    (totalChannels_safe fun hproduct => hlarge l d₁ hrun ?_) fun channels hchannels _ => ?_
  · rw [hraised.groups] at hproduct
    exact ⟨w, groupWidth, hraised.weight, hgroupWidth, hproduct⟩
  refine .ite (fun hdifferent => ?_) fun _ => ?_
  · refine reject_bind_safe (fun haccepted => hdifferent ?_) rfl (.inr rfl)
    rw [hchannels, hraised.groups]
    simpa [hinputChannels, hgroupWidth] using (hacceptable haccepted).channels
  rw [hstride] at hstrides ⊢
  refine Safe.step (a := (sh, sw)) rfl ?_
  refine Safe.andThen (Lift.uint32_ends _ _ _)
    (Lift.uint32_safe _ _ fun haccepted => hstrides haccepted sh (by simp)) fun _ _ _ => ?_
  refine Safe.andThen (Lift.uint32_ends _ _ _)
    (Lift.uint32_safe _ _ fun haccepted => hstrides haccepted sw (by simp)) fun _ _ _ => ?_
  rw [hdilation] at hdilations ⊢
  refine Safe.step (a := (dh, dw)) rfl ?_
  refine Safe.andThen (Lift.uint32_ends _ _ _)
    (Lift.uint32_safe _ _ fun haccepted => hdilations haccepted dh (by simp)) fun _ _ _ => ?_
  refine Safe.andThen (Lift.uint32_ends _ _ _)
    (Lift.uint32_safe _ _ fun haccepted => hdilations haccepted dw (by simp)) fun _ _ _ => ?_
  exact Safe.pure ⟨hready₁, hrun⟩

theorem assemble_safe (n : Convolution) {options : Options} {q : Survey} {first : Nat}
    {d₁ : Drafting} (h : Ready accepted faults owner [] d₁) (hlater : Registered d d₁)
    (hsurvey : q.Holds n d₁.session.graph first)
    (hlarge : ∀ g, d₁.Before g → n.Exceeds g → faults .bufferSize)
    (haccepts : accepted → ∃ x w y, n.Acceptable options owner d.session.graph names x w y) :
    Safe accepted faults (n.assemble q) d₁ fun _ d' => Ready accepted faults owner [] d' := by
  have hopen (d : Drafting) : d.Open 0 := Nat.zero_le _
  obtain ⟨x, w, y, x', w', y', hraised⟩ := hsurvey.lifts.raised
  have hacceptable (haccepted : accepted) :=
    Acceptable.later (haccepts haccepted) hlater hraised.input hraised.weight hraised.output
  obtain ⟨batch, inputChannels, height, width, hxDims⟩ := List.length_eq_four.mp hraised.lays.ranks.1
  obtain ⟨⟨_, hpadding, _⟩, _⟩ := Lift.parameterObjection?_eq_none.mp hraised.lays.valid
  obtain ⟨_, houtputChannels, _, _⟩ := hsurvey.operandChannels hraised.input hraised.weight
  have hinput : d₁.Image q.lifted.input := ⟨x', hraised.lays.input, hraised.lays.ranks.1⟩
  have houtput : d₁.Image q.lifted.output := ⟨y', hraised.lays.output, hraised.lays.ranks.2.2⟩
  rw [assemble_eq]
  refine Safe.bind_ends (Layout.bracket_ends _ _ _ (hopen d₁))
    (Layout.bracket_safe _ _ _ h (fun _ => hinput) fun _ => houtput) fun b d₂ h₂ hb hready₂ => ?_
  obtain ⟨t, ht, htDims⟩ :=
    (hb _ (Before.refl d₂)).declared_input (Registered.tensor? h₂ hraised.lays.input) hxDims
  refine Safe.bind_ends (padIfNeeded_ends _ _ (hopen d₂))
    (padIfNeeded_safe hready₂ ht htDims hpadding ?_) fun padding d₃ h₃ _ hready₃ => ?_
  · intro haccepted hpadded
    have hsizes := (hraised.padding rfl hraised.inputDims (by decide)).mpr
      ((hacceptable haccepted).padding (hraised.hasPadding ▸ hpadded))
    rwa [hxDims] at hsizes
  have hlater₃ : Registered d₁ d₃ := Registered.trans h₂ h₃
  have hweight₃ : d₃.Image q.lifted.weight :=
    ⟨w', Registered.tensor? hlater₃ hraised.lays.weight, hraised.lays.ranks.2.1⟩
  refine Safe.bind_ends (Layout.permute_ends _ _ _ (hopen d₃))
    (Layout.permute_safe _ _ ?_ hready₃ fun _ => hweight₃) fun reorder d₄ h₄ _ hready₄ => ?_
  · unfold Survey.weightOrder
    split <;> decide
  have hlater₄ : Registered d₁ d₄ := Registered.trans hlater₃ h₄
  have hbuffer (hlong : ¬ BiasFits (n.bias.bind d₄.session.graph.tensor?) q.outputChannels) :
      faults .bufferSize :=
    hlarge _ (Registered.extend hlater₄)
      ⟨w, q.outputChannels, Registered.tensor? hlater₄ hraised.weight, houtputChannels, hlong⟩
  refine (biasOperand_safe n q.x q.w hready₄ hbuffer fun haccepted id hid => ?_).bind
    fun bias d₅ hready₅ => Safe.pure hready₅
  have hbias := (hacceptable haccepted).bias id hid
  rw [List.getD_eq_getElem?_getD, houtputChannels] at hbias
  exact hbias.later (Registered.extend (Registered.trans hlater hlater₄))

theorem draft_safe (n : Convolution) (options : Options) (h : Ready accepted faults owner names d)
    (haxes : ∀ id ∈ [n.input, n.weight, n.output], ∀ t, d.session.graph.tensor? id = some t →
      faults .quantizedAxis ∨ t.AxisFits)
    (hlarge : ∀ l d', Draft.liftConvolution lowering n.input n.weight n.output n.params d =
      .ok l d' → (n.Overflows d'.session.graph → faults .channelProduct) ∧
      ∀ g, d'.Before g → n.Exceeds g → faults .bufferSize)
    (haccepts : accepted → ∃ x w y, n.Acceptable options owner d.session.graph names x w y) :
    Safe accepted faults (n.draft options) d fun _ d' => Ready accepted faults owner [] d' := by
  have hopen (d : Drafting) : d.Open 0 := Nat.zero_le _
  unfold draft
  refine Safe.bind_ends (n.survey_ends (hopen d))
    (n.survey_safe options h haxes (fun l d' hl => (hlarge l d' hl).1) haccepts)
    fun q d₁ h₁ hq ⟨hready₁, hlift⟩ => ?_
  refine Safe.bind_ends (warnings_ends _ _ _ _ _) (warnings_safe _ hready₁ fun haccepted => ?_)
    fun diagnostics d₂ h₂ _ hready₂ => ?_
  · obtain ⟨hsurvey, hchannels⟩ := hq _ (Before.refl d₁)
    obtain ⟨x, w, y, x', w', y', hraised⟩ := hsurvey.lifts.raised
    obtain ⟨hinputChannels, houtputChannels, hgroupWidth, hgroups⟩ :=
      hsurvey.operandChannels hraised.input hraised.weight
    have hgrouped := (Acceptable.later (haccepts haccepted) h₁
      hraised.input hraised.weight hraised.output).grouped
    simpa [Survey.depthwise, hchannels, hinputChannels, hgroupWidth,
      houtputChannels, hgroups, and_comm, and_assoc] using hgrouped
  have hlarge₂ (g : Graph) (hg : d₂.Before g) : n.Exceeds g → faults .bufferSize :=
    (hlarge _ d₁ hlift).2 g ((Registered.extend h₂).trans hg)
  exact (n.assemble_safe hready₂ (Registered.trans h₁ h₂) (hq _ (Registered.extend h₂)).1
    hlarge₂ haccepts).bind fun _ _ hready₃ => Safe.pure hready₃

end Convolution

/-! ## Transposed convolution -/

namespace TransposedConvolution

theorem crop_safe {out : Tensor} {ph pw batch height width channels : Nat}
    (h : Ready accepted faults owner names d)
    (htype : faults .elementTypeText ∨ out.elementType.printable)
    (himage : out.shape.dims = [batch, height, width, channels])
    (haccepts : accepted → (∀ n ∈ out.shape.dims, n ≤ maxInt32) ∧
      height + ph * 2 ≤ maxInt32 ∧ width + pw * 2 ≤ maxInt32) :
    Safe accepted faults (crop out [ph, pw]) d fun c d' => Ready accepted faults owner names d' ∧
      c.fullShape = ⟨[batch, height + ph * 2, width + pw * 2, channels]⟩ := by
  have hsizes : maxInt32 ≤ maxSize := by decide
  unfold crop
  refine Safe.step (a := (ph, pw)) rfl ?_
  rw [himage]
  refine Safe.step (a := height) rfl (Safe.andThen (Lift.paddedSize_ends _ _ _) (Lift.paddedSize_safe _
    fun haccepted => Nat.le_trans (haccepts haccepted).2.1 hsizes) fun fullHeight hheight _ => ?_)
  refine Safe.step (a := width) rfl (Safe.andThen (Lift.paddedSize_ends _ _ _) (Lift.paddedSize_safe _
    fun haccepted => Nat.le_trans (haccepts haccepted).2.2 hsizes) fun fullWidth hwidth _ => ?_)
  refine Safe.andThen (Lift.int32_ends _ _ _) (Lift.int32_safe _ _ fun haccepted => ?_) fun _ _ _ => ?_
  · have := (haccepts haccepted).2.1
    omega
  refine Safe.andThen (Lift.int32_ends _ _ _) (Lift.int32_safe _ _ fun haccepted => ?_) fun _ _ _ => ?_
  · have := (haccepts haccepted).2.2
    omega
  refine (Draft.int32Operand_safe _ h).bind fun begin d₁ hready₁ => ?_
  refine Safe.andThen (Lift.int32Shape_ends _ _)
    (Lift.int32Shape_safe _ fun haccepted => (haccepts haccepted).1) fun _ _ _ => ?_
  refine (Draft.int32Operand_safe _ hready₁).bind fun size d₂ hready₂ => ?_
  refine (Draft.intermediate_safe _ _ hready₂ htype).bind fun uncropped d₃ hready₃ =>
    Safe.pure ⟨hready₃, ?_⟩
  rw [hheight.1, hwidth.1]
  rfl

theorem cropIfNeeded_safe {out : Tensor} {params : ConvParams} {batch height width channels : Nat}
    (h : Ready accepted faults owner names d)
    (htype : faults .elementTypeText ∨ out.elementType.printable)
    (himage : out.shape.dims = [batch, height, width, channels])
    (hentries : params.padding.length = 2)
    (haccepts : accepted → batch ≤ maxInt32 ∧ channels ≤ maxInt32 ∧
      ∀ p ∈ params.padding.zip [height, width], p.2 + p.1 * 2 ≤ maxInt32) :
    Safe accepted faults (cropIfNeeded out params) d fun crop d' =>
      Ready accepted faults owner names d' ∧
      (accepted → ∀ n ∈ ((crop.map (·.fullShape)).getD out.shape).dims, n ≤ maxInt32) := by
  obtain ⟨ph, pw, hpadding⟩ := List.length_eq_two.mp hentries
  have hfull : accepted → batch ≤ maxInt32 ∧ channels ≤ maxInt32 ∧
      height + ph * 2 ≤ maxInt32 ∧ width + pw * 2 ≤ maxInt32 := by
    intro haccepted
    obtain ⟨hbatch, hchannels, hpadded⟩ := haccepts haccepted
    rw [hpadding] at hpadded
    exact ⟨hbatch, hchannels, hpadded _ List.mem_cons_self,
      hpadded _ (List.mem_cons_of_mem _ List.mem_cons_self)⟩
  have hout : accepted → ∀ n ∈ out.shape.dims, n ≤ maxInt32 := by
    intro haccepted n hn
    obtain ⟨hbatch, hchannels, hheight, hwidth⟩ := hfull haccepted
    rw [himage] at hn
    simp only [List.mem_cons, List.not_mem_nil, or_false] at hn
    omega
  unfold cropIfNeeded
  refine .ite (fun _ => ?_) fun _ => Safe.pure ⟨h, hout⟩
  rw [hpadding]
  refine (crop_safe h htype himage fun haccepted => ⟨hout haccepted, (hfull haccepted).2.2⟩).bind ?_
  rintro c d' ⟨hready, hshape⟩
  refine Safe.pure ⟨hready, fun haccepted n hn => ?_⟩
  obtain ⟨hbatch, hchannels, hheight, hwidth⟩ := hfull haccepted
  rw [Option.map_some, Option.getD_some, hshape] at hn
  simp only [List.mem_cons, List.not_mem_nil, or_false] at hn
  omega

/-- A bias that can be added to a result: it has one element, or one for each channel, of the type
of the result. -/
def AcceptsBias (g : Graph) (channels : Nat) (outputType : ElementType) (id : TensorId) : Prop :=
  ∃ t, g.tensor? id = some t ∧ (t.shape.elementCount = 1 ∨ t.shape.elementCount = channels) ∧
    t.elementType = outputType

theorem AcceptsBias.later {g g' : Graph} {channels : Nat} {outputType : ElementType}
    {id : TensorId} (h : AcceptsBias g channels outputType id)
    (hextend : g.tensors <+: g'.tensors) : AcceptsBias g' channels outputType id := by
  obtain ⟨t, ht, hbias⟩ := h
  exact ⟨t, Graph.tensor?_of_extend hextend ht, hbias⟩

theorem checkBias_safe (id : TensorId) {channels : Nat} {outputType : ElementType}
    (h : Ready accepted faults owner names d)
    (htype : faults .elementTypeText ∨ outputType.printable)
    (haccepts : accepted → AcceptsBias d.session.graph channels outputType id) :
    Safe accepted faults (checkBias id channels outputType) d fun _ _ => True := by
  unfold checkBias
  refine Safe.andThen (Draft.tensor_ends id) (Draft.tensor_safe id fun haccepted => ?_) fun t ht _ => ?_
  · obtain ⟨t, ht, _⟩ := haccepts haccepted
    rw [ht]
    rfl
  have ht := ht _ (Before.refl d)
  have hbias : accepted → (t.shape.elementCount = 1 ∨ t.shape.elementCount = channels) ∧
      t.elementType = outputType := by
    intro haccepted
    obtain ⟨t', ht', hbias⟩ := haccepts haccepted
    cases ht.symm.trans ht'
    exact hbias
  refine .ite (fun hlength => ?_) fun _ => .ite (fun hother => ?_) fun _ => Safe.pure trivial
  · refine reject_safe (fun haccepted => ?_) rfl (.inr rfl)
    have := (hbias haccepted).1
    omega
  · refine reject_safe (fun haccepted => hother (hbias haccepted).2) rfl ?_
    rcases h.elementType ht with hfault | hprintable
    · exact .inl hfault
    · refine htype.imp_right fun hout => ?_
      show [t.elementType, outputType].all ElementType.printable = true
      simp [hprintable, hout]

theorem addBias_safe (bias : Option TensorId) {channels : Nat} (output : TensorId) {out : Tensor}
    (h : Ready accepted faults owner names d)
    (htype : faults .elementTypeText ∨ out.elementType.printable)
    (haccepts : accepted → ∀ id ∈ bias, AcceptsBias d.session.graph channels out.elementType id) :
    Safe accepted faults (addBias bias channels output out) d fun _ d' =>
      Ready accepted faults owner names d' := by
  unfold addBias
  cases bias with
  | none => exact Safe.pure h
  | some id =>
    refine Safe.andThen (checkBias_ends id channels _)
      (checkBias_safe id h htype fun haccepted => haccepts haccepted id rfl) fun _ _ _ => ?_
    exact (Draft.intermediate_safe _ _ h htype).bind fun _ _ hready => Safe.pure hready

structure Acceptable (n : TransposedConvolution) (owner : String)
    (g : Graph) (names : List String) (x w y : Tensor) : Prop where
  input : g.tensor? n.input = some x
  weight : g.tensor? n.weight = some w
  output : g.tensor? n.output = some y
  liftable : Lift.Liftable owner x w y n.params names
  channels : w.shape.dims.getD 0 0 = x.shape.dims.getD 1 0
  strides : ∀ s ∈ n.params.stride, s ≤ maxUInt32
  batch : y.shape.dims.getD 0 0 ≤ maxInt32
  outputChannels : y.shape.dims.getD 1 0 ≤ maxInt32
  padding : ∀ p ∈ n.params.padding.zip (y.shape.dims.drop 2), p.2 + p.1 * 2 ≤ maxInt32
  bias : ∀ id ∈ n.bias, AcceptsBias g (w.shape.dims.getD 1 0) y.elementType id

theorem Acceptable.later {n : TransposedConvolution} {d₁ : Drafting} {x w y : Tensor}
    (h : ∃ x w y, n.Acceptable owner d.session.graph names x w y) (hlater : Registered d d₁)
    (hx : d₁.session.graph.tensor? n.input = some x)
    (hw : d₁.session.graph.tensor? n.weight = some w)
    (hy : d₁.session.graph.tensor? n.output = some y) :
    n.Acceptable owner d.session.graph names x w y := by
  obtain ⟨x₀, w₀, y₀, hacceptable⟩ := h
  cases (Registered.tensor? hlater hacceptable.input).symm.trans hx
  cases (Registered.tensor? hlater hacceptable.weight).symm.trans hw
  cases (Registered.tensor? hlater hacceptable.output).symm.trans hy
  exact hacceptable

theorem assemble_safe (n : TransposedConvolution) {l : Lifted} (window : Window)
    {outputChannels : Nat} {d₁ : Drafting} {x w y x' w' y' : Tensor}
    (h : Ready accepted faults owner [] d₁) (hlater : Registered d d₁)
    (hraised : Lift.Raised d₁.session.graph n.input n.weight n.output n.params l x w y x' w' y')
    (houtputChannels : w.shape.dims[1]? = some outputChannels)
    (haccepts : accepted → n.Acceptable owner d.session.graph names x w y) :
    Safe accepted faults (n.assemble l window outputChannels) d₁ fun _ d' =>
      Ready accepted faults owner [] d' := by
  have hopen (d : Drafting) : d.Open 0 := Nat.zero_le _
  obtain ⟨outBatch, outChannels, outHeight, outWidth, hyDims⟩ :=
    List.length_eq_four.mp hraised.lays.ranks.2.2
  obtain ⟨⟨_, hpadding, _⟩, _⟩ := Lift.parameterObjection?_eq_none.mp hraised.lays.valid
  obtain ⟨houtBatch, houtChannels⟩ := Lift.entries_of_raise hraised.outputDims hyDims
  have hinput : d₁.Image l.input := ⟨x', hraised.lays.input, hraised.lays.ranks.1⟩
  have houtput : d₁.Image l.output := ⟨y', hraised.lays.output, hraised.lays.ranks.2.2⟩
  rw [assemble_eq]
  refine Safe.bind_ends (Layout.bracket_ends _ _ _ (hopen d₁))
    (Layout.bracket_safe _ _ _ h (fun _ => hinput) fun _ => houtput) fun b d₂ h₂ hb hready₂ => ?_
  have hbrackets := hb _ (Before.refl d₂)
  have hy₂ := Registered.tensor? h₂ hraised.lays.output
  obtain ⟨out, hout, houtDims⟩ := hbrackets.declared_output hy₂ hyDims
  have houtType : out.elementType = y.elementType :=
    (hbrackets.output.elementType hy₂ hout).trans hraised.types.2
  refine Safe.andThen (Draft.tensor_ends _) (Draft.tensor_safe _ fun _ => by rw [hout]; rfl)
    fun out₁ hout₁ _ => ?_
  cases hout.symm.trans (hout₁ _ (Before.refl d₂))
  have htype := hready₂.elementType hout
  refine Safe.bind_ends (cropIfNeeded_ends out l.params (hopen d₂))
    (cropIfNeeded_safe hready₂ htype houtDims hpadding ?_) fun crop d₃ h₃ _ ⟨hready₃, hfull⟩ => ?_
  · intro haccepted
    have hacceptable := haccepts haccepted
    refine ⟨?_, ?_, ?_⟩
    · simpa [houtBatch] using hacceptable.batch
    · simpa [houtChannels] using hacceptable.outputChannels
    · have hsizes :=
        (hraised.padding hraised.ranks.2 hraised.outputDims (by decide)).mpr hacceptable.padding
      rwa [hyDims] at hsizes
  refine Safe.andThen (Lift.int32Shape_ends _ _) (Lift.int32Shape_safe _ hfull) fun _ _ _ => ?_
  refine Safe.bind_ends (Draft.int32Operand_ends _ (hopen d₃)) (Draft.int32Operand_safe _ hready₃)
    fun outputShape d₄ h₄ _ hready₄ => ?_
  have hlater₄ : Registered d₁ d₄ := Registered.trans h₂ (Registered.trans h₃ h₄)
  have hweight₄ : d₄.Image l.weight :=
    ⟨w', Registered.tensor? hlater₄ hraised.lays.weight, hraised.lays.ranks.2.1⟩
  refine Safe.bind_ends (Layout.permute_ends _ _ _ (hopen d₄))
    (Layout.permute_safe _ _ (by decide) hready₄ fun _ => hweight₄) fun reorder d₅ h₅ _ hready₅ => ?_
  refine (addBias_safe n.bias b.output hready₅ htype fun haccepted id hid => ?_).bind
    fun _ _ hready₆ => Safe.pure hready₆
  have hbias := (haccepts haccepted).bias id hid
  rw [List.getD_eq_getElem?_getD, houtputChannels, ← houtType] at hbias
  exact hbias.later (Registered.extend (Registered.trans hlater (Registered.trans hlater₄ h₅)))

theorem draft_safe (n : TransposedConvolution) (h : Ready accepted faults owner names d)
    (haxes : ∀ id ∈ [n.input, n.weight, n.output], ∀ t, d.session.graph.tensor? id = some t →
      faults .quantizedAxis ∨ t.AxisFits)
    (haccepts : accepted → ∃ x w y, n.Acceptable owner d.session.graph names x w y) :
    Safe accepted faults n.draft d fun _ d' => Ready accepted faults owner [] d' := by
  unfold draft
  refine Safe.bind_ends (Draft.liftConvolution_ends _ _ _ _ _ (Nat.zero_le _))
    (Draft.liftConvolution_safe _ h haxes fun haccepted => ?_) fun l d₁ h₁ hl hready₁ => ?_
  · obtain ⟨x, w, y, hacceptable⟩ := haccepts haccepted
    exact ⟨x, w, y, hacceptable.input, hacceptable.weight, hacceptable.output, hacceptable.liftable⟩
  obtain ⟨x, w, y, x', w', y', hraised⟩ := (hl _ (Before.refl d₁)).raised
  have hacceptable (haccepted : accepted) :=
    Acceptable.later (haccepts haccepted) h₁ hraised.input hraised.weight hraised.output
  obtain ⟨batch, inputChannels, height, width, hxDims⟩ := List.length_eq_four.mp hraised.lays.ranks.1
  obtain ⟨weightChannels, outputChannels, kernelHeight, kernelWidth, hwDims⟩ :=
    List.length_eq_four.mp hraised.lays.ranks.2.1
  obtain ⟨⟨hstride, _, _⟩, _⟩ := Lift.parameterObjection?_eq_none.mp hraised.lays.valid
  obtain ⟨sh, sw, hstride⟩ := List.length_eq_two.mp hstride
  obtain ⟨_, hinputChannels⟩ := Lift.entries_of_raise hraised.inputDims hxDims
  obtain ⟨hweightChannels, houtputChannels⟩ := Lift.entries_of_raise hraised.weightDims hwDims
  have hstrides (haccepted : accepted) : ∀ s ∈ l.params.stride, s ≤ maxUInt32 :=
    (hraised.strides (by decide)).mpr (hacceptable haccepted).strides
  refine Safe.andThen (Draft.tensor_ends _)
    (Draft.tensor_safe _ fun _ => by rw [hraised.lays.input]; rfl) fun x₁ hx₁ _ => ?_
  cases hraised.lays.input.symm.trans (hx₁ _ (Before.refl d₁))
  rw [hxDims]
  refine Safe.step (a := inputChannels) rfl ?_
  refine Safe.andThen (Draft.tensor_ends _)
    (Draft.tensor_safe _ fun _ => by rw [hraised.lays.weight]; rfl) fun w₁ hw₁ _ => ?_
  cases hraised.lays.weight.symm.trans (hw₁ _ (Before.refl d₁))
  refine Safe.step (entry_ok (x := weightChannels) (by rw [hwDims]; rfl)) ?_
  refine .ite (fun hdifferent => ?_) fun _ => ?_
  · refine reject_bind_safe (fun haccepted => hdifferent ?_) rfl (.inr rfl)
    simpa [hinputChannels, hweightChannels] using (hacceptable haccepted).channels
  refine Safe.step (entry_ok (x := outputChannels) (by rw [hwDims]; rfl)) ?_
  rw [hstride] at hstrides ⊢
  refine Safe.step (a := (sh, sw)) rfl ?_
  refine Safe.andThen (Lift.uint32_ends _ _ _)
    (Lift.uint32_safe _ _ fun haccepted => hstrides haccepted sh (by simp)) fun _ _ _ => ?_
  refine Safe.andThen (Lift.uint32_ends _ _ _)
    (Lift.uint32_safe _ _ fun haccepted => hstrides haccepted sw (by simp)) fun _ _ _ => ?_
  exact n.assemble_safe _ hready₁ h₁ hraised houtputChannels hacceptable

end TransposedConvolution

/-! ## Batch normalization -/

namespace BatchNorm

variable {s : Session}

def HoldsChannels (g : Graph) (channels : Nat) (id : TensorId) : Prop :=
  ∃ t data values, g.tensor? id = some t ∧ t.data = some data ∧
    data.floats? = some values ∧ values.size = channels

theorem channelValues_safe (id : TensorId) {channels : Nat}
    (hprintable : faults .elementTypeText ∨ s.graph.printable)
    (haccepts : accepted → HoldsChannels s.graph channels id) :
    Safe accepted faults (channelValues id channels) s fun values _ => values.length = channels := by
  unfold channelValues
  refine Safe.step rfl
    (Safe.andThen (liftGraph_ends _) (liftTensor_safe fun haccepted => ?_) fun t ht _ => ?_)
  · obtain ⟨t, _, _, ht, _⟩ := haccepts haccepted
    rw [ht]
    rfl
  have ht := Graph.tensor_eq_ok.mp ht
  have hholds : accepted →
      ∃ data values, t.data = some data ∧ data.floats? = some values ∧ values.size = channels := by
    intro haccepted
    obtain ⟨t', data, values, ht', hholds⟩ := haccepts haccepted
    cases ht.symm.trans ht'
    exact ⟨data, values, hholds⟩
  refine Safe.andThen (orReject_ends _ _) (orReject_safe (fun haccepted => ?_) rfl (.inr rfl))
    fun data hdata _ => ?_
  · obtain ⟨data, _, hdata, _⟩ := hholds haccepted
    rw [hdata]
    rfl
  refine Safe.andThen (orReject_ends _ _) (orReject_safe (fun haccepted => ?_) rfl ?_)
    fun values hvalues _ => ?_
  · obtain ⟨data', values, hdata', hvalues, _⟩ := hholds haccepted
    cases hdata.symm.trans hdata'
    rw [hvalues]
    rfl
  · refine hprintable.imp_right fun hprintable => ?_
    have htype := List.all_eq_true.mp hprintable t (List.mem_of_getElem? ht)
    show [t.elementType].all ElementType.printable = true
    simp [htype]
  refine .ite (fun hsize => Safe.pure ?_) fun hother => reject_safe (fun haccepted => ?_) rfl (.inr rfl)
  · rw [Values.length_toList, hsize]
  · obtain ⟨data', values', hdata', hvalues', hsize⟩ := hholds haccepted
    cases hdata.symm.trans hdata'
    cases hvalues.symm.trans hvalues'
    exact hother hsize

theorem channelBuffer_safe {rank channels : Nat} {values : List Float32} (hrank : 2 ≤ rank)
    (haccepts : accepted → values.length = channels ∧ channels ≤ maxBufferSize) :
    Safe accepted faults (channelBuffer rank channels values) s fun _ _ => True := by
  refine orReject_safe (fun haccepted => ?_) rfl (.inr rfl)
  obtain ⟨hlength, hfits⟩ := haccepts haccepted
  obtain ⟨rest, rfl⟩ := Nat.exists_eq_add_of_le' hrank
  have hdims : (channelShape (rest + 2) channels).dims = 1 :: channels :: List.replicate rest 1 := rfl
  have haddressable : (channelShape (rest + 2) channels).addressable := by
    rw [Shape.addressable_iff, hdims]
    by_cases hzero : channels = 0
    · simp [hzero]
      decide
    · simp [hzero, hfits]
  have hcount : (channelShape (rest + 2) channels).elementCount = channels := by
    rw [Shape.elementCount_of_addressable haddressable, hdims]
    simp
  unfold Buffer.reshaped?
  rw [if_pos]
  · rfl
  · exact ⟨hcount.trans hlength.symm, haddressable⟩

theorem length_fold (epsilon : Float32) {weight bias mean variance : List Float32}
    {channels : Nat} (hweight : weight.length = channels) (hbias : bias.length = channels)
    (hmean : mean.length = channels) (hvariance : variance.length = channels) :
    (fold epsilon weight bias mean variance).1.length = channels ∧
    (fold epsilon weight bias mean variance).2.length = channels := by
  unfold fold
  simp [hweight, hbias, hmean, hvariance]

theorem draft_safe (n : BatchNorm) (x : Tensor) (scale shift : Buffer)
    (h : Ready accepted faults owner names d) :
    Safe accepted faults (n.draft x scale shift) d fun _ d' =>
      Ready accepted faults owner names d' := by
  unfold draft
  refine (Draft.operand_safe _ _ h).bind fun _ d₁ hready₁ =>
    (Draft.operand_safe _ _ hready₁).bind fun _ d₂ hready₂ => ?_
  refine .ite (fun _ => ?_) fun _ => ?_
  · refine (Draft.intermediate_safe _ _ hready₂ (.inr rfl)).bind fun _ d₃ hready₃ => ?_
    refine (Draft.intermediate_safe _ _ hready₃ (.inr rfl)).bind fun _ d₄ hready₄ => ?_
    exact (Draft.intermediate_safe _ _ hready₄ (.inr rfl)).bind fun _ d₅ hready₅ => Safe.pure hready₅
  · exact (Draft.intermediate_safe _ _ hready₂ (.inr rfl)).bind fun _ d₃ hready₃ => Safe.pure hready₃

structure Acceptable (n : BatchNorm) (g : Graph) (x y : Tensor) : Prop where
  input : g.tensor? n.input = some x
  output : g.tensor? n.output = some y
  rank : 2 ≤ x.rank
  channels : x.shape.dims.getD 1 0 ≤ maxBufferSize
  values : ∀ id ∈ [n.weight, n.bias, n.mean, n.variance], HoldsChannels g (x.shape.dims.getD 1 0) id
  types : x.isQuantized ∧ y.isQuantized ∨ x.elementType = .f32 ∧ ¬ x.isQuantized

end BatchNorm

/-! ## Outlines -/

section Outlines

variable {s : Session}

/-- The outline is accepted if its draft is and the names that the draft gives are free. -/
def Composite.Acceptable (op : Composite) (options : Options) (s : Session) : Prop :=
  match op with
  | .batchNorm n => ∃ x y, n.Acceptable s.graph x y ∧ Free ⟨s, y.name, 0, 0⟩ []
  | .convolution n =>
    n.params.groups ≠ 0 ∧ ∃ names x w y, n.Acceptable options y.name s.graph names x w y ∧
      Free ⟨s, y.name, 0, 0⟩ names
  | .transposedConvolution n => n.params.groups = 1 ∧ (∀ k ∈ n.params.dilation, k = 1) ∧
      ∃ names x w y, n.Acceptable y.name s.graph names x w y ∧ Free ⟨s, y.name, 0, 0⟩ names

theorem Drafting.Ready.start (hprintable : faults .elementTypeText ∨ s.graph.printable)
    (hfree : accepted → Free ⟨s, owner, 0, 0⟩ names) :
    Ready accepted faults owner names ⟨s, owner, 0, 0⟩ :=
  ⟨rfl, hprintable, hfree⟩

theorem Convolution.outline_safe (n : Convolution) (options : Options)
    (hprintable : faults .elementTypeText ∨ s.graph.printable)
    (haxes : ∀ id ∈ [n.input, n.weight, n.output], ∀ t, s.graph.tensor? id = some t →
      faults .quantizedAxis ∨ t.AxisFits)
    (hlarge : ∀ y l d', s.graph.tensor? n.output = some y →
      Draft.liftConvolution lowering n.input n.weight n.output n.params ⟨s, y.name, 0, 0⟩ =
      .ok l d' → (n.Overflows d'.session.graph → faults .channelProduct) ∧
      ∀ g, d'.Before g → n.Exceeds g → faults .bufferSize)
    (haccepts : accepted → (Composite.convolution n).Acceptable options s) :
    Safe accepted faults (n.outline options) s fun _ s' =>
      faults .elementTypeText ∨ s'.graph.printable := by
  unfold outline
  refine .ite (fun hgroups =>
    reject_bind_safe (fun haccepted => (haccepts haccepted).1 hgroups) rfl (.inr rfl)) fun _ => ?_
  refine Safe.step rfl
    (Safe.andThen (liftGraph_ends _) (liftTensor_safe fun haccepted => ?_) fun y hy _ => ?_)
  · obtain ⟨_, _, _, _, y, hacceptable, _⟩ := haccepts haccepted
    rw [hacceptable.output]
    rfl
  have hy := Graph.tensor_eq_ok.mp hy
  obtain ⟨names, hfree⟩ : ∃ names, accepted →
      (∃ x w y', n.Acceptable options y.name s.graph names x w y') ∧
      Free ⟨s, y.name, 0, 0⟩ names := by
    by_cases haccepted : accepted
    · obtain ⟨_, names, x, w, y', hacceptable, hfree⟩ := haccepts haccepted
      cases hy.symm.trans hacceptable.output
      exact ⟨names, fun _ => ⟨⟨x, w, y, hacceptable⟩, hfree⟩⟩
    · exact ⟨[], fun haccepted' => absurd haccepted' haccepted⟩
  have hready : Ready accepted faults y.name names ⟨s, y.name, 0, 0⟩ :=
    .start hprintable fun haccepted => (hfree haccepted).2
  refine (Draft.run_safe (n.draft_safe options hready haxes (fun l d' => hlarge y l d' hy)
    fun haccepted => (hfree haccepted).1)).bind ?_
  rintro _ _ ⟨d', rfl, hready'⟩
  exact Safe.pure hready'.printable

theorem TransposedConvolution.outline_safe (n : TransposedConvolution) (options : Options)
    (hprintable : faults .elementTypeText ∨ s.graph.printable)
    (haxes : ∀ id ∈ [n.input, n.weight, n.output], ∀ t, s.graph.tensor? id = some t →
      faults .quantizedAxis ∨ t.AxisFits)
    (haccepts : accepted → (Composite.transposedConvolution n).Acceptable options s) :
    Safe accepted faults (n.outline options) s fun _ s' =>
      faults .elementTypeText ∨ s'.graph.printable := by
  unfold outline
  refine .ite (fun hgroups =>
    reject_bind_safe (fun haccepted => hgroups (haccepts haccepted).1) rfl (.inr rfl)) fun _ => ?_
  refine .ite (fun hdilated => reject_bind_safe (fun haccepted => ?_) rfl (.inr rfl)) fun _ => ?_
  · obtain ⟨k, hk, hother⟩ := List.any_eq_true.mp hdilated
    exact of_decide_eq_true hother ((haccepts haccepted).2.1 k hk)
  refine Safe.step rfl
    (Safe.andThen (liftGraph_ends _) (liftTensor_safe fun haccepted => ?_) fun y hy _ => ?_)
  · obtain ⟨_, _, _, _, _, y, hacceptable, _⟩ := haccepts haccepted
    rw [hacceptable.output]
    rfl
  have hy := Graph.tensor_eq_ok.mp hy
  obtain ⟨names, hfree⟩ : ∃ names, accepted →
      (∃ x w y', n.Acceptable y.name s.graph names x w y') ∧ Free ⟨s, y.name, 0, 0⟩ names := by
    by_cases haccepted : accepted
    · obtain ⟨_, _, names, x, w, y', hacceptable, hfree⟩ := haccepts haccepted
      cases hy.symm.trans hacceptable.output
      exact ⟨names, fun _ => ⟨⟨x, w, y, hacceptable⟩, hfree⟩⟩
    · exact ⟨[], fun haccepted' => absurd haccepted' haccepted⟩
  have hready : Ready accepted faults y.name names ⟨s, y.name, 0, 0⟩ :=
    .start hprintable fun haccepted => (hfree haccepted).2
  refine (Draft.run_safe (n.draft_safe hready haxes fun haccepted => (hfree haccepted).1)).bind ?_
  rintro _ _ ⟨d', rfl, hready'⟩
  exact Safe.pure hready'.printable

theorem BatchNorm.outline_safe (n : BatchNorm) (options : Options)
    (hprintable : faults .elementTypeText ∨ s.graph.printable)
    (haccepts : accepted → (Composite.batchNorm n).Acceptable options s) :
    Safe accepted faults n.outline s fun _ s' => faults .elementTypeText ∨ s'.graph.printable := by
  unfold outline
  refine Safe.step rfl
    (Safe.andThen (liftGraph_ends _) (liftTensor_safe fun haccepted => ?_) fun x hx _ => ?_)
  · obtain ⟨x, _, hacceptable, _⟩ := haccepts haccepted
    rw [hacceptable.input]
    rfl
  have hx := Graph.tensor_eq_ok.mp hx
  have hacceptable : accepted → ∃ y, n.Acceptable s.graph x y ∧ Free ⟨s, y.name, 0, 0⟩ [] := by
    intro haccepted
    obtain ⟨x', y, hacceptable, hfree⟩ := haccepts haccepted
    cases hx.symm.trans hacceptable.input
    exact ⟨y, hacceptable, hfree⟩
  refine .ite (fun hflat => reject_bind_safe (fun haccepted => ?_) rfl (.inr rfl)) fun hrank => ?_
  · obtain ⟨_, hacceptable, _⟩ := hacceptable haccepted
    exact Nat.not_lt.mpr hacceptable.rank hflat
  have hrank : 2 ≤ x.rank := Nat.not_lt.mp hrank
  refine Safe.andThen (entry_ends _ _) (entry_safe hrank) fun channels hchannels _ => ?_
  have hvalues : accepted →
      ∀ id ∈ [n.weight, n.bias, n.mean, n.variance], HoldsChannels s.graph channels id := by
    intro haccepted
    obtain ⟨_, hacceptable, _⟩ := hacceptable haccepted
    have hholds := hacceptable.values
    rwa [List.getD_eq_getElem?_getD, hchannels] at hholds
  refine Safe.andThen (channelValues_ends _ _) (channelValues_safe _ hprintable fun haccepted =>
    hvalues haccepted _ (by simp)) fun weight _ hweight => ?_
  refine Safe.andThen (channelValues_ends _ _) (channelValues_safe _ hprintable fun haccepted =>
    hvalues haccepted _ (by simp)) fun bias _ hbias => ?_
  refine Safe.andThen (channelValues_ends _ _) (channelValues_safe _ hprintable fun haccepted =>
    hvalues haccepted _ (by simp)) fun mean _ hmean => ?_
  refine Safe.andThen (channelValues_ends _ _) (channelValues_safe _ hprintable fun haccepted =>
    hvalues haccepted _ (by simp)) fun variance _ hvariance => ?_
  obtain ⟨hscales, hshifts⟩ := length_fold n.epsilon hweight hbias hmean hvariance
  refine .ite (fun hplain => reject_bind_safe (fun haccepted => ?_) rfl ?_) fun _ => ?_
  · obtain ⟨_, hacceptable, _⟩ := hacceptable haccepted
    rcases hacceptable.types with ⟨hquantized, _⟩ | ⟨hfloat, _⟩
    · exact hplain.1 hquantized
    · exact hplain.2 hfloat
  · refine hprintable.imp_right fun hprintable => ?_
    have htype := List.all_eq_true.mp hprintable x (List.mem_of_getElem? hx)
    show [x.elementType].all ElementType.printable = true
    simp [htype]
  refine Safe.step rfl
    (Safe.andThen (liftGraph_ends _) (liftTensor_safe fun haccepted => ?_) fun y hy _ => ?_)
  · obtain ⟨y, hacceptable, _⟩ := hacceptable haccepted
    rw [hacceptable.output]
    rfl
  have hy := Graph.tensor_eq_ok.mp hy
  refine .ite (fun hquantized => reject_bind_safe (fun haccepted => ?_) rfl (.inr rfl)) fun _ => ?_
  · obtain ⟨y', hacceptable, _⟩ := hacceptable haccepted
    cases hy.symm.trans hacceptable.output
    rcases hacceptable.types with ⟨_, hquantized'⟩ | ⟨_, hplain⟩
    · exact hquantized.2 hquantized'
    · exact hplain hquantized.1
  have hfits : accepted → channels ≤ maxBufferSize := by
    intro haccepted
    obtain ⟨_, hacceptable, _⟩ := hacceptable haccepted
    simpa [hchannels] using hacceptable.channels
  refine Safe.andThen (channelBuffer_ends _ _ _)
    (channelBuffer_safe hrank fun haccepted => ⟨hscales, hfits haccepted⟩) fun scale _ _ => ?_
  refine Safe.andThen (channelBuffer_ends _ _ _)
    (channelBuffer_safe hrank fun haccepted => ⟨hshifts, hfits haccepted⟩) fun shift _ _ => ?_
  have hready : Ready accepted faults y.name [] ⟨s, y.name, 0, 0⟩ :=
      .start hprintable fun haccepted => by
    obtain ⟨y', hacceptable, hfree⟩ := hacceptable haccepted
    cases hy.symm.trans hacceptable.output
    exact hfree
  refine (Draft.run_safe (n.draft_safe x scale shift hready)).bind ?_
  rintro _ _ ⟨d', rfl, hready'⟩
  exact Safe.pure hready'.printable

theorem Composite.outline_safe (op : Composite) (options : Options)
    (hprintable : faults .elementTypeText ∨ s.graph.printable)
    (haxes : ∀ id ∈ op.inputs ++ [op.output], ∀ t, s.graph.tensor? id = some t →
      faults .quantizedAxis ∨ t.AxisFits)
    (hlarge : ∀ n y l d', op = .convolution n → s.graph.tensor? n.output = some y →
      Draft.liftConvolution Convolution.lowering n.input n.weight n.output n.params
      ⟨s, y.name, 0, 0⟩ = .ok l d' → (n.Overflows d'.session.graph → faults .channelProduct) ∧
      ∀ g, d'.Before g → n.Exceeds g → faults .bufferSize)
    (haccepts : accepted → op.Acceptable options s) :
    Safe accepted faults (op.outline options) s fun _ s' =>
      faults .elementTypeText ∨ s'.graph.printable := by
  cases op with
  | batchNorm n => exact n.outline_safe options hprintable haccepts
  | convolution n =>
    refine n.outline_safe options hprintable (fun id hid => haxes id ?_)
      (fun y l d' => hlarge n y l d' rfl) haccepts
    simp only [inputs, output, List.mem_append, List.mem_cons, List.not_mem_nil, or_false] at hid ⊢
    tauto
  | transposedConvolution n =>
    refine n.outline_safe options hprintable (fun id hid => haxes id ?_) haccepts
    simp only [inputs, output, List.mem_append, List.mem_cons, List.not_mem_nil, or_false] at hid ⊢
    tauto

end Outlines

end GraphLowering
