import GraphLowering.Lowering.Replace
import GraphLowering.Proofs.Drafts

/-!
# The chains of the lowerings

For each of the three lowerings a plan names the tensors and operators that its draft chooses, and
says what the chain is. `Convolution.Plan.Fits`, `TransposedConvolution.Plan.Fits` and
`BatchNorm.Plan.Fits` say how the parts of a plan belong together in a graph. A draft that ends has
made such a plan (`Convolution.draft_ends` and so on).
-/

namespace GraphLowering

open Drafting (Registered)

/-! ## Convolution -/

namespace Convolution

variable {d : Drafting} {first : Nat}

/-- The data of a convolution, padded with zeros if the parameters say so. -/
inductive Pads (g : Graph) (first : Nat) (id : TensorId) (params : ConvParams) :
  List Operator → TensorId → Prop
  | unpadded (zero : ¬ params.hasPadding) : Pads g first id params [] id
  | padded {op : Operator} {result : TensorId} {t : Tensor}
      {rows columns height width : Nat} {ph pw : Int32}
      (some : params.hasPadding) (heightEntry : params.padding[0]? = .some height)
      (widthEntry : params.padding[1]? = .some width) (heightRange : toInt32? height = .some ph)
      (widthRange : toInt32? width = .some pw) (known : g.tensor? id = .some t)
      (rowCount : t.shape.dims[1]? = .some rows)
      (columnCount : t.shape.dims[2]? = .some columns)
      (intermediate : g.Intermediate first result
        ⟨t.elementType, ⟨(t.shape.dims.set 1 (rows + height * 2)).set 2 (columns + width * 2)⟩⟩
          t.quantization)
      (moves : g.Moves first .pad ⟨⟨[4, 2]⟩, .i32 (.listed [0, 0, ph, ph, pw, pw, 0, 0])⟩ id result op)
      (sizes : rows + height * 2 ≤ maxSize ∧ columns + width * 2 ≤ maxSize) :
      Pads g first id params [op] result

theorem pad_ends (id : TensorId) (params : ConvParams) (hpadding : params.hasPadding)
    (hopen : d.Open first) :
    Ends Registered (pad id params.padding) d fun r d' =>
      ∀ g, d'.Before g → Pads g first id params [r.1] r.2 := by
  unfold pad
  refine Ends.andThen (Lift.perAxis_ends _) fun p hp =>
    Ends.andThen (Draft.tensor_ends id) fun t ht => ?_
  refine Ends.andThen (entry_ends _ _) fun h hh =>
    Ends.andThen (Lift.paddedSize_ends _ _ _) fun height hheight => ?_
  refine Ends.andThen (entry_ends _ _) fun w hw =>
    Ends.andThen (Lift.paddedSize_ends _ _ _) fun width hwidth => ?_
  refine Ends.andThen (Lift.int32_ends _ _ _) fun ph hph =>
    Ends.andThen (Lift.int32_ends _ _ _) fun pw hpw => ?_
  refine (Draft.intermediate_ends _ _ hopen).bind fun padded d₁ h₁ hpadded => ?_
  refine (Draft.operand_ends _ _ (Registered.isOpen h₁ hopen)).bind fun paddings d₂ h₂ hpaddings => ?_
  refine Ends.pure fun g hg => ?_
  have hg₁ : d₁.Before g := Registered.before h₂ hg
  obtain ⟨rfl, hheight⟩ := hheight
  obtain ⟨rfl, hwidth⟩ := hwidth
  exact .padded hpadding hp.1 hp.2 hph hpw (ht g (Registered.before h₁ hg₁)) hh hw (hpadded g hg₁)
    ⟨paddings, hpaddings g hg, rfl⟩ ⟨hheight, hwidth⟩

theorem padIfNeeded_ends (id : TensorId) (params : ConvParams) (hopen : d.Open first) :
    Ends Registered (padIfNeeded id params) d fun r d' =>
      ∀ g, d'.Before g → Pads g first id params r.1 r.2 := by
  unfold padIfNeeded
  refine .ite (fun hpadding => ?_) (fun hzero => Ends.pure fun g _ => .unpadded hzero)
  exact (pad_ends id params hpadding hopen).bind fun r d₁ _ hr => Ends.pure hr

/-- The bias of a convolution with one element for each output channel: zeros, the given one, or one
element repeated. -/
inductive Biases (g : Graph) (first : Nat) (channels : Nat) : Option TensorId → TensorId → Prop
  | zeros {data : Buffer} {result : TensorId}
      (zero : data = .vector (.f32 (.uniform channels 0)) ∨ data = .vector (.i32 (.uniform channels 0)))
      (operand : g.Operand first result data) (fits : data.fits) : Biases g first channels none result
  | given {id : TensorId} {t : Tensor} (known : g.tensor? id = some t)
      (length : t.shape.elementCount = channels) :
      Biases g first channels (some id) id
  | repeated {id : TensorId} {t : Tensor} {data copies : Buffer}
      {result : TensorId} (known : g.tensor? id = some t)
      (one : t.shape.elementCount = 1) (other : t.shape.elementCount ≠ channels)
      (constant : t.data = some data)
      (copied : data.repeatFirst? channels = some copies) (operand : g.Operand first result copies)
      (fits : copies.fits) :
      Biases g first channels (some id) result

theorem zeroBias_ends (channels : Nat) (inputType : ElementType) (input weight : Option Quantization)
    (hopen : d.Open first) :
    Ends Registered (zeroBias channels inputType input weight) d fun id d' =>
      ∀ g, d'.Before g → Biases g first channels none id := by
  unfold zeroBias
  refine .ite (fun _ => ?_) (fun _ => ?_)
  all_goals
    refine Ends.andThen (allocate_ends _) fun data hdata => ?_
    obtain ⟨rfl, hfits⟩ := hdata
  · exact (Draft.operand_ends _ _ hopen).mono fun id _ _ hid g hg => .zeros (.inl rfl) (hid g hg) hfits
  · exact (Draft.operand_ends _ _ hopen).mono fun id _ _ hid g hg => .zeros (.inr rfl) (hid g hg) hfits

theorem channelBias_ends (id : TensorId) (channels : Nat) (hopen : d.Open first) :
    Ends Registered (channelBias id channels) d fun result d' =>
      ∀ g, d'.Before g → Biases g first channels (some id) result := by
  unfold channelBias
  refine Ends.andThen (Draft.tensor_ends id) fun t ht => .ite (fun hlength => ?_) (fun hlength => ?_)
  · exact Ends.pure fun g hg => .given (ht g hg) hlength
  · refine .ite (fun _ => reject_ends _) fun hone =>
      Ends.andThen (orReject_ends _ _) fun copies hcopies => ?_
    obtain ⟨data, hdata, hcopied⟩ := Option.bind_eq_some_iff.mp hcopies
    refine Ends.andThen (allocate_ends _) fun allocated hallocated => ?_
    obtain ⟨rfl, hfits⟩ := hallocated
    refine (Draft.operand_ends _ _ hopen).mono fun result d₁ h₁ hresult g hg => ?_
    exact .repeated (ht g (Registered.before h₁ hg)) (not_not.mp hone)
      hlength hdata hcopied (hresult g hg) hfits

theorem totalChannels_ends (groupWidth groups : Nat) :
    Ends Eq (totalChannels groupWidth groups) d fun n _ => n = groupWidth * groups := by
  unfold totalChannels
  exact .ite (fun _ => Ends.pure rfl) (fun _ => faulty_ends _)

theorem grouped_ends (options : Options) (groups : Nat) :
    Ends Registered (grouped options groups) d fun _ _ => ¬ options.denyGrouped := by
  unfold grouped
  refine Ends.andThen Lift.owner_ends fun owner _ => .ite (fun _ => reject_ends _) fun hallowed => ?_
  exact (Draft.note_ends _).bind fun _ _ _ _ => Ends.pure hallowed

theorem warnings_ends (options : Options) (depthwise : Bool) (inputChannels groupWidth groups : Nat) :
    Ends Registered (warnings options depthwise inputChannels groupWidth groups) d fun _ _ =>
      ¬ (options.denyGrouped ∧ ¬ depthwise ∧ inputChannels ≠ groupWidth) := by
  unfold warnings
  refine .ite (fun _ => ?_) (fun hsingle => Ends.pure fun hdenied => hsingle hdenied.2)
  exact (grouped_ends options groups).mono fun _ _ _ hallowed hdenied => hallowed hdenied.1

theorem biasOperand_ends (n : Convolution) (channels : Nat) (x w : Tensor) (hopen : d.Open first) :
    Ends Registered (n.biasOperand channels x w) d fun result d' =>
      ∀ g, d'.Before g → Biases g first channels n.bias result := by
  unfold biasOperand
  cases n.bias with
  | none => exact zeroBias_ends _ _ _ _ hopen
  | some id => exact channelBias_ends id channels hopen

/-- The tensors and operators that a draft chooses. -/
structure Plan extends Survey where
  bracket : Layout.Bracket
  padding : List Operator
  /-- The padded input, with the channels last. -/
  data : TensorId
  reorder : Operator
  filter : TensorId
  bias : TensorId

/-- What a survey says of a convolution is so. -/
structure Survey.Holds (n : Convolution) (g : Graph) (first : Nat) (q : Survey) : Prop where
  lifts : Lift.LiftsTo g first n.input n.weight n.output n.params q.lifted
  input : g.tensor? q.lifted.input = some q.x
  weight : g.tensor? q.lifted.weight = some q.w
  inputChannels : q.x.shape.dims[1]? = some (q.groupWidth * q.lifted.params.groups)
  outputChannels : q.w.shape.dims[0]? = some q.outputChannels
  groupWidth : q.w.shape.dims[1]? = some q.groupWidth
  stride : q.lifted.params.stride[0]? = some q.stride.height ∧
    q.lifted.params.stride[1]? = some q.stride.width
  dilation : q.lifted.params.dilation[0]? = some q.dilation.height ∧
    q.lifted.params.dilation[1]? = some q.dilation.width
  strideRange : q.stride.height ≤ maxUInt32 ∧ q.stride.width ≤ maxUInt32
  dilationRange : q.dilation.height ≤ maxUInt32 ∧ q.dilation.width ≤ maxUInt32

namespace Plan

def chain (p : Plan) (activation : Activation) : List Operator :=
  p.lifted.before ++ p.bracket.enter :: p.padding
    ++ [p.reorder, ⟨p.kind activation, [p.data, p.filter, p.bias], [p.bracket.output]⟩, p.bracket.leave]
    ++ p.lifted.after

theorem forall_mem_chain (p : Plan) {activation : Activation} {P : Operator → Prop}
    (hlifts : ∀ op ∈ p.lifted.before ++ p.lifted.after, P op) (henter : P p.bracket.enter)
    (hpads : ∀ op ∈ p.padding, P op) (hreorder : P p.reorder)
    (hconvolution : P ⟨p.kind activation, [p.data, p.filter, p.bias], [p.bracket.output]⟩)
    (hleave : P p.bracket.leave) :
    ∀ op ∈ p.chain activation, P op := by
  intro op hop
  simp only [chain, List.mem_append, List.mem_cons, List.not_mem_nil, or_false] at hop
  rcases hop with ((hop | rfl | hop) | rfl | rfl | rfl) | hop
  · exact hlifts op (List.mem_append_left _ hop)
  · exact henter
  · exact hpads op hop
  · exact hreorder
  · exact hconvolution
  · exact hleave
  · exact hlifts op (List.mem_append_right _ hop)

/-- The parts of a plan belong together. -/
structure Fits (n : Convolution) (g : Graph) (first : Nat) (p : Plan) :
    Prop extends p.toSurvey.Holds n g first where
  brackets : Layout.Brackets g first p.lifted.input p.lifted.output p.bracket
  pads : Pads g first p.bracket.input p.lifted.params p.padding p.data
  reorders : g.Moves first .transpose (Layout.permutationBuffer p.weightOrder)
    p.lifted.weight p.filter p.reorder
  permuted : Layout.Permuted g first p.weightOrder p.lifted.weight p.filter
  biases : Biases g first p.outputChannels n.bias p.bias

/-- Convolutions in groups are not denied, or this is none. -/
def Permitted (p : Plan) (options : Options) : Prop :=
  ¬ (options.denyGrouped ∧ ¬ p.depthwise ∧ p.groupWidth * p.lifted.params.groups ≠ p.groupWidth)

end Plan

theorem survey_ends (n : Convolution) (hopen : d.Open first) :
    Ends Registered n.survey d fun q d' => ∀ g, d'.Before g →
      q.Holds n g first ∧ q.inputChannels = q.groupWidth * q.lifted.params.groups := by
  unfold survey
  refine (Draft.liftConvolution_ends _ _ _ _ _ hopen).bind fun l d₁ h₁ hl => ?_
  refine Ends.andThen (Draft.tensor_ends _) fun x hx =>
    Ends.andThen (entry_ends _ _) fun inputChannels hinput => ?_
  refine Ends.andThen (Draft.tensor_ends _) fun w hw =>
    Ends.andThen (entry_ends _ _) fun outputChannels houtput => ?_
  refine Ends.andThen (entry_ends _ _) fun groupWidth hwidth => ?_
  refine Ends.andThen (totalChannels_ends _ _) fun channels hchannels => ?_
  refine .ite (fun _ => ?_) (fun hequal => ?_)
  · exact reject_bind_ends _
  refine Ends.andThen (Lift.perAxis_ends _) fun stride hstride => ?_
  refine Ends.andThen (Lift.uint32_ends _ _ _) fun sh hsh =>
    Ends.andThen (Lift.uint32_ends _ _ _) fun sw hsw => ?_
  refine Ends.andThen (Lift.perAxis_ends _) fun dilation hdilation => ?_
  refine Ends.andThen (Lift.uint32_ends _ _ _) fun dh hdh =>
    Ends.andThen (Lift.uint32_ends _ _ _) fun dw hdw => ?_
  refine Ends.pure fun g hg => ?_
  obtain rfl : inputChannels = channels := not_not.mp hequal
  obtain ⟨rfl, hsh⟩ := hsh
  obtain ⟨rfl, hsw⟩ := hsw
  obtain ⟨rfl, hdh⟩ := hdh
  obtain ⟨rfl, hdw⟩ := hdw
  subst hchannels
  exact ⟨⟨hl g hg, hx g hg, hw g hg, hinput, houtput, hwidth,
    hstride, hdilation, ⟨hsh, hsw⟩, ⟨hdh, hdw⟩⟩, rfl⟩

theorem assemble_ends (n : Convolution) (q : Survey) (hopen : d.Open first)
    (hq : ∀ g, d.Before g → q.Holds n g first) :
    Ends Registered (n.assemble q) d fun chain d' =>
      ∀ g, d'.Before g →
        ∃ p : Plan, p.toSurvey = q ∧ p.Fits n g first ∧ chain = p.chain n.activation := by
  rw [assemble_eq]
  refine (Layout.bracket_ends _ _ _ hopen).bind fun b d₁ h₁ hb => ?_
  have hopen₁ := Registered.isOpen h₁ hopen
  refine (padIfNeeded_ends _ _ hopen₁).bind fun padding d₂ h₂ hpadding => ?_
  have hopen₂ := Registered.isOpen h₂ hopen₁
  refine (Layout.permute_ends _ _ _ hopen₂).bind fun reorder d₃ h₃ hreorder => ?_
  refine (biasOperand_ends n _ _ _ (Registered.isOpen h₃ hopen₂)).bind
    fun bias d₄ h₄ hbias => Ends.pure ?_
  intro g hg
  -- each part has said what holds in all later graphs, and `g` is later than all of them
  have hg₃ : d₃.Before g := Registered.before h₄ hg
  have hg₂ : d₂.Before g := Registered.before h₃ hg₃
  have hg₁ : d₁.Before g := Registered.before h₂ hg₂
  refine ⟨⟨q, b, padding.1, padding.2, reorder.1, reorder.2, bias⟩, rfl, ?_, rfl⟩
  exact ⟨hq g (Registered.before h₁ hg₁), hb g hg₁, hpadding g hg₂,
    (hreorder g hg₃).1, (hreorder g hg₃).2, hbias g hg⟩

theorem draft_ends (n : Convolution) (options : Options) (hopen : d.Open first) :
    Ends Registered (n.draft options) d fun r d' =>
      ∀ g, d'.Before g →
        ∃ p : Plan, p.Fits n g first ∧ p.Permitted options ∧ r.1 = p.chain n.activation := by
  unfold draft
  refine (n.survey_ends hopen).bind fun q d₁ h₁ hq => ?_
  refine (warnings_ends _ _ _ _ _).bind fun diagnostics d₂ h₂ hpermitted => ?_
  have hsurvey (g : Graph) (hg : d₂.Before g) := hq g (Registered.before h₂ hg)
  have hopen₂ := Registered.isOpen h₂ (Registered.isOpen h₁ hopen)
  refine (n.assemble_ends q hopen₂ fun g hg => (hsurvey g hg).1).bind fun chain d₃ h₃ hchain =>
    Ends.pure fun g hg => ?_
  obtain ⟨p, rfl, hfits, hp⟩ := hchain g hg
  rw [(hsurvey g (Registered.before h₃ hg)).2] at hpermitted
  exact ⟨p, hfits, hpermitted, hp⟩

end Convolution

/-! ## Transposed convolution -/

namespace TransposedConvolution

variable {d : Drafting} {first : Nat}

/-- The operands of the slice that cuts the padding off a result. -/
structure Crops (g : Graph) (first : Nat) (out : Tensor) (params : ConvParams) (c : Crop) : Prop where
  uncropped : g.Intermediate first c.uncropped ⟨out.elementType, c.fullShape⟩ out.quantization
  begin : ∃ height width ph pw, params.padding[0]? = some height ∧ params.padding[1]? = some width ∧
    toInt32? height = some ph ∧ toInt32? width = some pw ∧
    g.Operand first c.begin (.ofInt32s [0, ph, pw, 0])
  size : ∃ dims, out.shape.toInt32s? = some dims ∧ g.Operand first c.size (.ofInt32s dims)
  fullShape : ∃ height width ph pw, params.padding[0]? = some ph ∧ params.padding[1]? = some pw ∧
    out.shape.dims[1]? = some height ∧ out.shape.dims[2]? = some width ∧
    c.fullShape = ⟨(out.shape.dims.set 1 (height + ph * 2)).set 2 (width + pw * 2)⟩

theorem crop_ends (out : Tensor) (params : ConvParams) (hopen : d.Open first) :
    Ends Registered (crop out params.padding) d fun c d' =>
      ∀ g, d'.Before g → Crops g first out params c := by
  unfold crop
  refine Ends.andThen (Lift.perAxis_ends _) fun p hp => ?_
  refine Ends.andThen (entry_ends _ _) fun h hh =>
    Ends.andThen (Lift.paddedSize_ends _ _ _) fun height hheight => ?_
  refine Ends.andThen (entry_ends _ _) fun w hw =>
    Ends.andThen (Lift.paddedSize_ends _ _ _) fun width hwidth => ?_
  refine Ends.andThen (Lift.int32_ends _ _ _) fun ph hph =>
    Ends.andThen (Lift.int32_ends _ _ _) fun pw hpw => ?_
  refine (Draft.int32Operand_ends _ hopen).bind fun begin d₁ h₁ hbegin => ?_
  have hopen₁ := Registered.isOpen h₁ hopen
  refine Ends.andThen (Lift.int32Shape_ends _ _) fun dims hdims => ?_
  refine (Draft.int32Operand_ends _ hopen₁).bind fun size d₂ h₂ hsize => ?_
  refine (Draft.intermediate_ends _ _ (Registered.isOpen h₂ hopen₁)).bind
    fun uncropped d₃ h₃ huncropped => ?_
  refine Ends.pure fun g hg => ?_
  have hg₂ : d₂.Before g := Registered.before h₃ hg
  obtain ⟨rfl, _⟩ := hheight
  obtain ⟨rfl, _⟩ := hwidth
  exact ⟨huncropped g hg, ⟨p.1, p.2, ph, pw, hp.1, hp.2, hph, hpw, hbegin g (Registered.before h₂ hg₂)⟩,
    ⟨dims, hdims, hsize g hg₂⟩, ⟨h, w, p.1, p.2, hp.1, hp.2, hh, hw, rfl⟩⟩

theorem cropIfNeeded_ends (out : Tensor) (params : ConvParams) (hopen : d.Open first) :
    Ends Registered (cropIfNeeded out params) d fun crop d' =>
      crop.isSome = params.hasPadding ∧ ∀ g, d'.Before g → ∀ c ∈ crop, Crops g first out params c := by
  unfold cropIfNeeded
  refine .ite (fun hpadding => ?_) (fun hzero => ?_)
  · refine (crop_ends out params hopen).bind fun c d₁ _ hc => Ends.pure ⟨hpadding.symm, ?_⟩
    rintro g hg _ ⟨⟩
    exact hc g hg
  · exact Ends.pure ⟨(Bool.eq_false_iff.mpr hzero).symm, fun g _ c hc => nomatch hc⟩

inductive AddsBias (g : Graph) (first : Nat) (channels : Nat) (output : TensorId) (out : Tensor) :
    Option TensorId → List Operator → TensorId → Prop
  | unbiased : AddsBias g first channels output out none [] output
  | biased {id unbiased : TensorId} {t : Tensor} (known : g.tensor? id = some t)
      (length : t.shape.elementCount = 1 ∨ t.shape.elementCount = channels)
      (intermediate : g.Intermediate first unbiased out.type out.quantization) :
      AddsBias g first channels output out (some id) [⟨.add .none, [unbiased, id], [output]⟩] unbiased

theorem checkBias_ends (id : TensorId) (channels : Nat) (outputType : ElementType) :
    Ends Eq (checkBias id channels outputType) d fun _ _ =>
      ∃ t, (∀ g, d.Before g → g.tensor? id = some t) ∧
      (t.shape.elementCount = 1 ∨ t.shape.elementCount = channels) := by
  unfold checkBias
  refine Ends.andThen (Draft.tensor_ends id) fun t ht => .ite (fun _ => reject_ends _) fun hlength => ?_
  refine .ite (fun _ => reject_ends _) fun _ => Ends.pure ⟨t, ht, ?_⟩
  omega

theorem addBias_ends (bias : Option TensorId) (channels : Nat) (output : TensorId) (out : Tensor)
    (hopen : d.Open first) :
    Ends Registered (addBias bias channels output out) d fun r d' =>
      ∀ g, d'.Before g → AddsBias g first channels output out bias r.1 r.2 := by
  unfold addBias
  cases bias with
  | none => exact Ends.pure fun _ _ => .unbiased
  | some id =>
    refine Ends.andThen (checkBias_ends id channels _) fun _ ⟨t, ht, hlength⟩ => ?_
    refine (Draft.intermediate_ends _ _ hopen).bind fun unbiased d₁ h₁ hunbiased =>
      Ends.pure fun g hg => ?_
    exact .biased (ht g (Registered.before h₁ hg)) hlength (hunbiased g hg)

structure Plan where
  lifted : Lifted
  /-- The input with two spatial axes. -/
  x : Tensor
  /-- The weight with two spatial axes. -/
  w : Tensor
  outputChannels : Nat
  stride : PerAxis
  bracket : Layout.Bracket
  /-- The output with two spatial axes and the channels last. -/
  out : Tensor
  crop : Option Crop
  outputShape : TensorId
  reorder : Operator
  filter : TensorId
  addition : List Operator
  /-- The result without its padding and before the bias is added. -/
  cropped : TensorId

namespace Plan

def fullShape (p : Plan) : Shape :=
  (p.crop.map (·.fullShape)).getD p.out.shape

def convolved (p : Plan) : TensorId :=
  (p.crop.map (·.uncropped)).getD p.cropped

def slice (p : Plan) : List Operator :=
  p.crop.toList.map fun c => ⟨.slice, [c.uncropped, c.begin, c.size], [p.cropped]⟩

def chain (p : Plan) : List Operator :=
  p.lifted.before
    ++ [p.bracket.enter, p.reorder,
      ⟨.transposeConv ⟨.valid, p.stride⟩, [p.outputShape, p.filter, p.bracket.input], [p.convolved]⟩]
    ++ p.slice ++ p.addition ++ p.bracket.leave :: p.lifted.after

theorem forall_mem_chain (p : Plan) {P : Operator → Prop}
    (hlifts : ∀ op ∈ p.lifted.before ++ p.lifted.after, P op) (henter : P p.bracket.enter)
    (hreorder : P p.reorder)
    (hconvolution : P ⟨.transposeConv ⟨.valid, p.stride⟩,
      [p.outputShape, p.filter, p.bracket.input], [p.convolved]⟩)
    (hslice : ∀ op ∈ p.slice, P op) (hadds : ∀ op ∈ p.addition, P op) (hleave : P p.bracket.leave) :
    ∀ op ∈ p.chain, P op := by
  intro op hop
  simp only [chain, List.mem_append, List.mem_cons, List.not_mem_nil, or_false] at hop
  rcases hop with (((hop | rfl | rfl | rfl) | hop) | hop) | rfl | hop
  · exact hlifts op (List.mem_append_left _ hop)
  · exact henter
  · exact hreorder
  · exact hconvolution
  · exact hslice op hop
  · exact hadds op hop
  · exact hleave
  · exact hlifts op (List.mem_append_right _ hop)

structure Fits (n : TransposedConvolution) (g : Graph) (first : Nat) (p : Plan) : Prop where
  lifts : Lift.LiftsTo g first n.input n.weight n.output n.params p.lifted
  input : g.tensor? p.lifted.input = some p.x
  weight : g.tensor? p.lifted.weight = some p.w
  channels : p.w.shape.dims[0]? = p.x.shape.dims[1]?
  outputChannels : p.w.shape.dims[1]? = some p.outputChannels
  stride : p.lifted.params.stride[0]? = some p.stride.height ∧
    p.lifted.params.stride[1]? = some p.stride.width
  strideRange : p.stride.height ≤ maxUInt32 ∧ p.stride.width ≤ maxUInt32
  brackets : Layout.Brackets g first p.lifted.input p.lifted.output p.bracket
  out : g.tensor? p.bracket.output = some p.out
  cropping : p.crop.isSome = p.lifted.params.hasPadding
  crops : ∀ c ∈ p.crop, Crops g first p.out p.lifted.params c
  shapes : ∃ dims, p.fullShape.toInt32s? = some dims ∧ g.Operand first p.outputShape (.ofInt32s dims)
  reorders : g.Moves first .transpose (Layout.permutationBuffer weightPermutation)
    p.lifted.weight p.filter p.reorder
  permuted : Layout.Permuted g first weightPermutation p.lifted.weight p.filter
  adds : AddsBias g first p.outputChannels p.bracket.output p.out n.bias p.addition p.cropped

end Plan

theorem draft_ends (n : TransposedConvolution) (hopen : d.Open first) :
    Ends Registered n.draft d fun chain d' =>
      ∀ g, d'.Before g → ∃ p : Plan, p.Fits n g first ∧ chain = p.chain := by
  unfold draft
  refine (Draft.liftConvolution_ends _ _ _ _ _ hopen).bind fun l d₁ h₁ hl => ?_
  have hopen₁ := Registered.isOpen h₁ hopen
  refine Ends.andThen (Draft.tensor_ends _) fun x hx =>
    Ends.andThen (entry_ends _ _) fun inputChannels hinput => ?_
  refine Ends.andThen (Draft.tensor_ends _) fun w hw =>
    Ends.andThen (entry_ends _ _) fun weightChannels hweight => ?_
  refine .ite (fun _ => reject_bind_ends _) (fun hequal => ?_)
  refine Ends.andThen (entry_ends _ _) fun outputChannels houtput => ?_
  refine Ends.andThen (Lift.perAxis_ends _) fun stride hstride => ?_
  refine Ends.andThen (Lift.uint32_ends _ _ _) fun sh hsh =>
    Ends.andThen (Lift.uint32_ends _ _ _) fun sw hsw => ?_
  rw [assemble_eq]
  refine (Layout.bracket_ends _ _ _ hopen₁).bind fun b d₂ h₂ hb => ?_
  have hopen₂ := Registered.isOpen h₂ hopen₁
  refine Ends.andThen (Draft.tensor_ends _) fun out hout => ?_
  refine (cropIfNeeded_ends out l.params hopen₂).bind fun crop d₃ h₃ hcrop => ?_
  have hopen₃ := Registered.isOpen h₃ hopen₂
  refine Ends.andThen (Lift.int32Shape_ends _ _) fun dims hdims => ?_
  refine (Draft.int32Operand_ends _ hopen₃).bind fun outputShape d₄ h₄ hshape => ?_
  have hopen₄ := Registered.isOpen h₄ hopen₃
  refine (Layout.permute_ends _ _ _ hopen₄).bind fun reorder d₅ h₅ hreorder => ?_
  refine (addBias_ends _ _ _ _ (Registered.isOpen h₅ hopen₄)).bind
    fun addition d₆ h₆ haddition => Ends.pure ?_
  intro g hg
  have hg₅ : d₅.Before g := Registered.before h₆ hg
  have hg₄ : d₄.Before g := Registered.before h₅ hg₅
  have hg₃ : d₃.Before g := Registered.before h₄ hg₄
  have hg₂ : d₂.Before g := Registered.before h₃ hg₃
  have hg₁ : d₁.Before g := Registered.before h₂ hg₂
  obtain rfl : weightChannels = inputChannels := not_not.mp hequal
  obtain ⟨rfl, hsh⟩ := hsh
  obtain ⟨rfl, hsw⟩ := hsw
  refine ⟨⟨l, x, w, outputChannels, ⟨stride.1, stride.2⟩, b,
    out, crop, outputShape, reorder.1, reorder.2, addition.1, addition.2⟩, ?_, rfl⟩
  exact ⟨hl g hg₁, hx g hg₁, hw g hg₁, hweight.trans hinput.symm,
    houtput, hstride, ⟨hsh, hsw⟩, hb g hg₂, hout g hg₂, hcrop.1, hcrop.2 g hg₃,
    ⟨dims, hdims, hshape g hg₄⟩, (hreorder g hg₅).1, (hreorder g hg₅).2, haddition g hg⟩

end TransposedConvolution

/-! ## Batch normalization -/

namespace BatchNorm

variable {d : Drafting} {first : Nat}

/-- The tensors of the chain of a normalization. Those between the scaling and the output are there
if the input is quantized. -/
structure Plan where
  scale : TensorId
  shift : TensorId
  scaled : TensorId
  /-- The dequantized input and the result before it is quantized. -/
  unquantized : Option (TensorId × TensorId)

def Plan.chain (p : Plan) (n : BatchNorm) : List Operator :=
  match p.unquantized with
  | some (dequantized, shifted) => [
      ⟨.dequantize, [n.input], [dequantized]⟩,
      ⟨.mul .none, [dequantized, p.scale], [p.scaled]⟩,
      ⟨.add n.activation, [p.scaled, p.shift], [shifted]⟩,
      ⟨.quantize, [shifted], [n.output]⟩]
  | none => [
      ⟨.mul .none, [n.input, p.scale], [p.scaled]⟩,
      ⟨.add n.activation, [p.scaled, p.shift], [n.output]⟩]

structure Plan.Fits (x : Tensor) (scale shift : Buffer) (g : Graph)
    (first : Nat) (p : Plan) : Prop where
  scale : g.Operand first p.scale scale
  shift : g.Operand first p.shift shift
  scaled : g.Intermediate first p.scaled ⟨.f32, x.shape⟩ none
  quantized : p.unquantized.isSome = x.isQuantized
  unquantized : ∀ u ∈ p.unquantized, g.Intermediate first u.1 ⟨.f32, x.shape⟩ none ∧
    g.Intermediate first u.2 ⟨.f32, x.shape⟩ none

theorem draft_ends (n : BatchNorm) (x : Tensor) (scale shift : Buffer) (hopen : d.Open first) :
    Ends Registered (n.draft x scale shift) d fun chain d' =>
      ∀ g, d'.Before g → ∃ p : Plan, p.Fits x scale shift g first ∧ chain = p.chain n := by
  unfold draft
  refine (Draft.operand_ends _ _ hopen).bind fun scaleId d₁ h₁ hscale => ?_
  have hopen₁ := Registered.isOpen h₁ hopen
  refine (Draft.operand_ends _ _ hopen₁).bind fun shiftId d₂ h₂ hshift => ?_
  have hopen₂ := Registered.isOpen h₂ hopen₁
  refine .ite (fun hquantized => ?_) (fun hplain => ?_)
  · refine (Draft.intermediate_ends _ _ hopen₂).bind fun dequantized d₃ h₃ hdequantized => ?_
    have hopen₃ := Registered.isOpen h₃ hopen₂
    refine (Draft.intermediate_ends _ _ hopen₃).bind fun scaled d₄ h₄ hscaled => ?_
    refine (Draft.intermediate_ends _ _ (Registered.isOpen h₄ hopen₃)).bind
      fun shifted d₅ h₅ hshifted => ?_
    refine Ends.pure fun g hg => ⟨⟨scaleId, shiftId, scaled, some (dequantized, shifted)⟩, ?_, rfl⟩
    have hg₄ : d₄.Before g := Registered.before h₅ hg
    have hg₃ : d₃.Before g := Registered.before h₄ hg₄
    have hg₂ : d₂.Before g := Registered.before h₃ hg₃
    refine ⟨hscale g (Registered.before h₂ hg₂), hshift g hg₂, hscaled g hg₄, hquantized.symm, ?_⟩
    rintro _ ⟨⟩
    exact ⟨hdequantized g hg₃, hshifted g hg⟩
  · refine (Draft.intermediate_ends _ _ hopen₂).bind fun scaled d₃ h₃ hscaled => ?_
    refine Ends.pure fun g hg => ⟨⟨scaleId, shiftId, scaled, none⟩, ?_, rfl⟩
    have hg₂ : d₂.Before g := Registered.before h₃ hg
    exact ⟨hscale g (Registered.before h₂ hg₂), hshift g hg₂,
      hscaled g hg, (Bool.eq_false_iff.mpr hplain).symm, fun _ hu => nomatch hu⟩

def HoldsValues (g : Graph) (channels : Nat) (id : TensorId) (numbers : List Float32) : Prop :=
  ∃ t data values, g.tensor? id = some t ∧ t.data = some data ∧
    data.floats? = some values ∧ values.size = channels ∧
    values.toList = numbers

theorem channelValues_ends {s : Session} (id : TensorId) (channels : Nat) :
    Ends Eq (channelValues id channels) s fun numbers _ => HoldsValues s.graph channels id numbers := by
  unfold channelValues
  refine Ends.read rfl (Ends.andThen (liftGraph_ends _) fun t ht =>
    Ends.andThen (orReject_ends _ _) fun data hdata => ?_)
  refine Ends.andThen (orReject_ends _ _) fun values hvalues => ?_
  exact .ite
    (fun hsize => Ends.pure ⟨t, data, values, Graph.tensor_eq_ok.mp ht, hdata, hvalues, hsize, rfl⟩)
    (fun _ => reject_ends _)

structure AlongChannels (rank channels : Nat) (b : Buffer) : Prop where
  elementType : b.elementType = .f32
  shape : b.shape = channelShape rank channels

theorem channelBuffer_ends {s : Session} (rank channels : Nat) (values : List Float32) :
    Ends Eq (channelBuffer rank channels values) s fun b _ =>
      AlongChannels rank channels b ∧ b.elements = .f32 (.listed values) := by
  refine (orReject_ends _ _).mono fun b _ _ hb => ?_
  obtain rfl := Buffer.eq_of_reshaped? hb
  exact ⟨⟨rfl, rfl⟩, rfl⟩

end BatchNorm

/-! ## All lowerings -/

/-- A chain that a lowering drafts, with tensors whose numbers are `first` or more. -/
def Composite.Drafts (op : Composite) (g : Graph) (first : Nat) (chain : List Operator) : Prop :=
  match op with
  | .batchNorm n =>
    ∃ x scale shift, ∃ p : BatchNorm.Plan, g.tensor? n.input = some x ∧ p.Fits x scale shift g first ∧
      chain = p.chain n
  | .convolution n => ∃ p : Convolution.Plan, p.Fits n g first ∧ chain = p.chain n.activation
  | .transposedConvolution n => ∃ p : TransposedConvolution.Plan, p.Fits n g first ∧ chain = p.chain

/-- A composite of which the graph is rid was replaced by a chain that its lowering drafts. -/
def Composite.Becomes (op : Composite) (d : Detachment) (g : Graph) (ids : List NodeId)
    (g' : Graph) : Prop :=
  ∃ drafted chain, g.Registers drafted ∧
    (∀ later, drafted.tensors <+: later.tensors → op.Drafts later g.tensors.length chain) ∧
    drafted.Replaces d chain ids g'

end GraphLowering
