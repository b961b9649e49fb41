import GraphLowering.Proofs.Contracts
import GraphLowering.Proofs.Meaning.TransposedConvolution

/-!
# The sizes that operations prescribe

Each operation says how the sizes of its result come from those of its operands, and from the
permutations, paddings and shapes that constants hold (`Graph.ShapeRule`). A lowering takes the
sizes of the output from the composite and never compares them with these rules. The rules hold for
its chain if the sizes of the operands and of the output belong together (`Convolution.Plan.Frames`,
`TransposedConvolution.Plan.Frames`).
-/

namespace GraphLowering

/-- A dilated kernel fits on an axis, and the result counts the windows that the stride leads to. -/
structure Slides (size kernel stride dilation result : Nat) : Prop where
  fits : (dilation : Int) * (kernel - 1) + 1 ≤ size
  count : (result : Int) = Value.windows size kernel stride dilation

theorem slides_of_le {size kernel stride dilation : Nat} (hkernel : 1 ≤ kernel)
    (hfits : dilation * (kernel - 1) + 1 ≤ size) :
    Slides size kernel stride dilation ((size - (dilation * (kernel - 1) + 1)) / stride + 1) := by
  have hextent : ((dilation * (kernel - 1) + 1 : Nat) : Int) = dilation * ((kernel : Int) - 1) + 1 := by
    push_cast [Nat.cast_sub hkernel]
    rfl
  refine ⟨?_, ?_⟩
  · rw [← hextent]
    exact Int.ofNat_le.mpr hfits
  · unfold Value.windows
    push_cast [Nat.cast_sub hfits, Nat.cast_sub hkernel]
    rw [Int.sub_sub]

namespace Graph

def dims? (g : Graph) (id : TensorId) : Option (List Nat) :=
  (g.tensor? id).map (·.shape.dims)

/-- Two operands have the axes of the result, counted from the last one, but an axis of size one is
repeated. -/
def Broadcasts (g : Graph) (a b y : TensorId) : Prop :=
  ∃ left right common, g.dims? a = some left ∧ g.dims? b = some right ∧
    Value.commonDims left.reverse right.reverse = some common ∧ g.dims? y = some common.reverse

/-- What an operation prescribes for the sizes of its operands and of its result. -/
inductive ShapeRule (g : Graph) : Operator → Prop
  | transpose {x p y : TensorId} {dims perm : List Nat} (data : g.dims? x = some dims)
      (order : g.sizes? p = some perm)
      (permutes : IsPermutation perm dims.length)
      (result : g.dims? y = some (perm.map (dims.getD · 0))) :
      ShapeRule g ⟨.transpose, [x, p], [y]⟩
  | pad {x p y : TensorId} {dims paddings : List Nat} (data : g.dims? x = some dims)
      (amounts : g.sizes? p = some paddings)
      (axes : paddings.length = 2 * dims.length)
      (result : g.dims? y = some (List.zipWith (fun d p => p.1 + d + p.2) dims (pairs paddings))) :
      ShapeRule g ⟨.pad, [x, p], [y]⟩
  | reshape {newShape : List Int32} {x s y : TensorId} {dims shape : List Nat}
      (data : g.dims? x = some dims)
      (stated : newShape.mapM ofInt32? = some shape) (operand : g.sizes? s = some shape)
      (count : shape.prod = dims.prod)
      (result : g.dims? y = some shape) : ShapeRule g ⟨.reshape newShape, [x, s], [y]⟩
  | slice {x b s y : TensorId} {dims begin size : List Nat} (data : g.dims? x = some dims)
      (corner : g.sizes? b = some begin)
      (extent : g.sizes? s = some size) (inside : Value.WindowIn dims begin size)
      (result : g.dims? y = some size) :
      ShapeRule g ⟨.slice, [x, b, s], [y]⟩
  | mul {activation : Activation} {a b y : TensorId} (broadcasts : g.Broadcasts a b y) :
    ShapeRule g ⟨.mul activation, [a, b], [y]⟩
  | add {activation : Activation} {a b y : TensorId} (broadcasts : g.Broadcasts a b y) :
    ShapeRule g ⟨.add activation, [a, b], [y]⟩
  | dequantize {x y : TensorId} {dims : List Nat} (data : g.dims? x = some dims)
      (result : g.dims? y = some dims) :
      ShapeRule g ⟨.dequantize, [x], [y]⟩
  | quantize {x y : TensorId} {dims : List Nat} (data : g.dims? x = some dims)
      (result : g.dims? y = some dims) :
      ShapeRule g ⟨.quantize, [x], [y]⟩
  | conv2d {stride dilation : PerAxis} {activation : Activation}
      {x f b y : TensorId} {biasDims : List Nat}
      {batch height width channels outputs kernelHeight kernelWidth depth rows columns : Nat}
      (data : g.dims? x = some [batch, height, width, channels])
      (filter : g.dims? f = some [outputs, kernelHeight, kernelWidth, depth])
      (bias : g.dims? b = some biasDims) (biasCount : biasDims.prod = outputs)
      (groups : 0 < depth ∧ depth ∣ channels)
      (vertical : Slides height kernelHeight stride.height dilation.height rows)
      (horizontal : Slides width kernelWidth stride.width dilation.width columns)
      (result : g.dims? y = some [batch, rows, columns, outputs]) :
      ShapeRule g ⟨.conv2d ⟨.valid, stride⟩ dilation activation, [x, f, b], [y]⟩
  | depthwiseConv2d {stride dilation : PerAxis} {multiplier : Nat}
      {activation : Activation} {x f b y : TensorId} {biasDims : List Nat}
      {batch height width channels outputs kernelHeight kernelWidth rows columns : Nat}
      (data : g.dims? x = some [batch, height, width, channels])
      (filter : g.dims? f = some [1, kernelHeight, kernelWidth, outputs])
      (bias : g.dims? b = some biasDims) (biasCount : biasDims.prod = outputs)
      (multiple : channels * multiplier = outputs)
      (vertical : Slides height kernelHeight stride.height dilation.height rows)
      (horizontal : Slides width kernelWidth stride.width dilation.width columns)
      (result : g.dims? y = some [batch, rows, columns, outputs]) :
      ShapeRule g ⟨.depthwiseConv2d ⟨.valid, stride⟩ dilation multiplier activation, [x, f, b], [y]⟩
  | transposeConv {stride : PerAxis} {s f x y : TensorId}
      {batch height width channels outputs kernelHeight kernelWidth rows columns : Nat}
      (shape : g.sizes? s = some [batch, rows, columns, outputs])
      (filter : g.dims? f = some [outputs, kernelHeight, kernelWidth, channels])
      (data : g.dims? x = some [batch, height, width, channels])
      (result : g.dims? y = some [batch, rows, columns, outputs]) :
      ShapeRule g ⟨.transposeConv ⟨.valid, stride⟩, [s, f, x], [y]⟩

end Graph

variable {g : Graph} {first : Nat}

theorem Graph.dims?_of_tensor? {id : TensorId} {t : Tensor} {dims : List Nat}
    (ht : g.tensor? id = some t) (hdims : t.shape.dims = dims) :
    g.dims? id = some dims := by
  unfold Graph.dims?
  rw [ht, Option.map_some, hdims]

theorem Graph.Typed.dims_eq {R : Type*} {store : Store R} {id : TensorId} {dims : List Nat}
    (h : g.Typed store) (hid : g.dims? id = some dims) :
    (store id).dims = dims := by
  obtain ⟨t, ht, rfl⟩ := Option.map_eq_some_iff.mp hid
  exact h id t ht

theorem Graph.Intermediate.dims? {id : TensorId} {type : TensorType}
    {quantization : Option Quantization} (h : g.Intermediate first id type quantization) :
    g.dims? id = some type.shape.dims := by
  obtain ⟨_, _, ht⟩ := h
  exact Graph.dims?_of_tensor? ht rfl

theorem Graph.Operand.dims? {id : TensorId} {data : Buffer} (h : g.Operand first id data) :
    g.dims? id = some data.shape.dims := by
  obtain ⟨_, _, _, ht⟩ := h
  exact Graph.dims?_of_tensor? ht rfl

/-! ## Layouts -/

theorem Layout.Permuted.shapeRule {perm : List Nat} {source result : TensorId} {op : Operator}
    (h : Permuted g first perm source result)
    (hmoves : g.Moves first .transpose (permutationBuffer perm) source result op)
    (hperm : (perm.map Int32.ofNat).mapM ofInt32? = some perm) : g.ShapeRule op := by
  obtain ⟨t, ht⟩ : ∃ t, g.tensor? source = some t := by
    obtain ⟨t, _, ht, _⟩ := h
    exact ⟨t, ht⟩
  obtain ⟨hpermutes, r, hr, hdims⟩ := h.declared ht
  obtain ⟨p, hp, rfl⟩ := hmoves
  exact .transpose (Graph.dims?_of_tensor? ht rfl) (hp.sizes? hperm)
    hpermutes (Graph.dims?_of_tensor? hr hdims)

theorem Layout.Brackets.shapeRule {input output : TensorId} {b : Bracket}
    {batch channels height width : Nat} (h : Brackets g first input output b)
    (hy : g.dims? output = some [batch, channels, height, width]) :
    g.ShapeRule b.enter ∧ g.ShapeRule b.leave := by
  obtain ⟨y, hy', hyDims⟩ := Option.map_eq_some_iff.mp hy
  obtain ⟨r, hr, hrDims⟩ := h.declared_output hy' hyDims
  refine ⟨h.input.shapeRule h.enter (by decide), ?_⟩
  obtain ⟨p, hp, hleave⟩ := h.leave
  have hback : [batch, channels, height, width] =
      toChannelFirst.map ([batch, height, width, channels].getD · 0) := rfl
  have hpermutes : IsPermutation toChannelFirst 4 := by
    decide
  rw [hback] at hy
  rw [hleave]
  exact .transpose (Graph.dims?_of_tensor? hr hrDims) (hp.sizes? (by decide)) hpermutes hy

/-! ## A unit axis -/

namespace Lift

theorem Reshapes.shapeRule {shape : Shape} {source result : TensorId} {op : Operator}
    {dims : List Nat} (h : Reshapes g first shape source result op)
    (hsource : g.dims? source = some dims) (hresult : g.dims? result = some shape.dims)
    (hcount : shape.dims.prod = dims.prod) : g.ShapeRule op := by
  obtain ⟨xs, hxs, p, hp, rfl⟩ := h
  have hsizes : xs.mapM ofInt32? = some shape.dims := mapM_ofInt32? hxs
  exact .reshape hsource hsizes (hp.sizes? hsizes) hcount hresult

theorem Expands.shapeRule {source result : TensorId} {op : Operator}
    (h : Expands g first source result op) : g.ShapeRule op := by
  obtain ⟨t, _, ht, _, hresult, hreshapes⟩ := h
  exact hreshapes.shapeRule (Graph.dims?_of_tensor? ht rfl) hresult.dims? (t.shape.prod_insertAxis axis)

theorem Collapses.shapeRule {source result : TensorId} {op : Operator}
    (h : Collapses g first source result op) : g.ShapeRule op := by
  obtain ⟨t, _, ht, _, hsource, hreshapes⟩ := h
  exact hreshapes.shapeRule hsource.dims? (Graph.dims?_of_tensor? ht rfl)
    (t.shape.prod_insertAxis axis).symm

theorem LiftsTo.shapeRule {input weight output : TensorId} {params : ConvParams} {l : Lifted}
    (h : LiftsTo g first input weight output params l) : ∀ op ∈ l.before ++ l.after, g.ShapeRule op :=
  h.forall_mem (fun _ _ _ hexpands => hexpands.shapeRule) fun _ _ _ hcollapses => hcollapses.shapeRule

end Lift

/-! ## Convolution -/

namespace Convolution

theorem Pads.shapeRule {id data : TensorId} {params : ConvParams} {ops : List Operator}
    {batch height width channels ph pw : Nat} (h : Pads g first id params ops data)
    (hdims : g.dims? id = some [batch, height, width, channels])
    (hpadding : params.padding = [ph, pw]) :
    (∀ op ∈ ops, g.ShapeRule op) ∧
    g.dims? data = some [batch, height + 2 * ph, width + 2 * pw, channels] := by
  cases h with
  | unpadded hnone =>
    have hzero : ph = 0 ∧ pw = 0 := by
      simpa [ConvParams.hasPadding, hpadding] using hnone
    rw [hzero.1, hzero.2]
    exact ⟨List.forall_mem_nil _, hdims⟩
  | @padded op result t rows columns height' width' ph' pw' _
      hheight hwidth hph hpw hknown hrows hcolumns hresult hmoves _ =>
    rw [hpadding] at hheight hwidth
    cases hheight
    cases hwidth
    have ht : t.shape.dims = [batch, height, width, channels] := by
      unfold Graph.dims? at hdims
      rw [hknown] at hdims
      exact Option.some.inj hdims
    rw [ht] at hrows hcolumns hresult
    cases hrows
    cases hcolumns
    have hamounts : [0, 0, ph, ph, pw, pw, 0, 0].mapM toInt32? =
        some [0, 0, ph', ph', pw', pw', 0, 0] := by
      simp only [List.mapM_cons, List.mapM_nil, hph, hpw]
      rfl
    have hpadded : g.dims? data = some [batch, height + 2 * ph, width + 2 * pw, channels] := by
      rw [Nat.mul_comm 2, Nat.mul_comm 2]
      exact hresult.dims?
    obtain ⟨p, hp, rfl⟩ := hmoves
    refine ⟨List.forall_mem_singleton.mpr (.pad hdims (hp.sizes? (mapM_ofInt32? hamounts)) rfl ?_),
      hpadded⟩
    rw [hpadded]
    simp [pairs]
    omega

theorem Biases.dims? {channels : Nat} {bias : Option TensorId} {result : TensorId}
    (h : Biases g first channels bias result)
    (hgiven : ∀ id ∈ bias, ∀ t, g.tensor? id = some t → t.shape.dims.prod = channels) :
    ∃ dims, g.dims? result = some dims ∧ dims.prod = channels := by
  cases h with
  | zeros hzero hoperand _ =>
    rcases hzero with rfl | rfl
    · exact ⟨_, hoperand.dims?, List.prod_singleton⟩
    · exact ⟨_, hoperand.dims?, List.prod_singleton⟩
  | given hknown _ => exact ⟨_, Graph.dims?_of_tensor? hknown rfl, hgiven _ rfl _ hknown⟩
  | repeated hknown hone hother _ _ _ _ =>
    rw [Shape.elementCount_eq, hgiven _ rfl _ hknown] at hone hother
    unfold maxSize at hone hother
    omega

namespace Plan

variable {n : Convolution} {p : Plan} {z : Setting}

/-- The operands and the output of a convolution of images have sizes that belong together. -/
structure Frames (p : Plan) (g : Graph) (bias : Option TensorId) (z : Setting) : Prop where
  input : p.x.shape.dims = [z.batch, z.channels, z.height, z.width]
  weight : p.w.shape.dims = [z.outputs, z.depth, z.kernelHeight, z.kernelWidth]
  output : g.dims? p.lifted.output = some [z.batch, z.outputs, z.rows, z.columns]
  stride : p.lifted.params.stride = [z.stride.height, z.stride.width]
  padding : p.lifted.params.padding = [z.padding.height, z.padding.width]
  dilation : p.lifted.params.dilation = [z.dilation.height, z.dilation.width]
  depth : 0 < z.depth
  bias : ∀ id ∈ bias, ∀ t, g.tensor? id = some t → t.shape.dims.prod = z.outputs
  vertical : Slides z.paddedHeight z.kernelHeight z.stride.height z.dilation.height z.rows
  horizontal : Slides z.paddedWidth z.kernelWidth z.stride.width z.dilation.width z.columns

theorem Fits.shapeRule (h : p.Fits n g first) (hz : p.Frames g n.bias z) :
    ∀ op ∈ p.chain n.activation, g.ShapeRule op := by
  obtain ⟨y, hy, hyDims⟩ := Option.map_eq_some_iff.mp hz.output
  obtain ⟨inner, hinner, hinnerDims⟩ := h.brackets.declared_input h.input hz.input
  obtain ⟨out, hout, houtDims⟩ := h.brackets.declared_output hy hyDims
  obtain ⟨henter, hleave⟩ := h.brackets.shapeRule hz.output
  obtain ⟨hpads, hdata⟩ := h.pads.shapeRule (Graph.dims?_of_tensor? hinner hinnerDims) hz.padding
  obtain ⟨_, filter, hfilter, hfilterDims⟩ := h.permuted.declared h.weight
  have hstride : p.stride = z.stride := perAxis_eq hz.stride h.stride
  have hdilation : p.dilation = z.dilation := perAxis_eq hz.dilation h.dilation
  -- the channels that the plan has found are those of the sizes
  have hchannels : z.channels = p.groupWidth * p.lifted.params.groups := by
    simpa [hz.input] using h.inputChannels
  have houtputs : z.outputs = p.outputChannels := by
    simpa [hz.weight] using h.outputChannels
  have hdepth : z.depth = p.groupWidth := by
    simpa [hz.weight] using h.groupWidth
  obtain ⟨biasDims, hbias, hbiasCount⟩ := h.biases.dims? (houtputs ▸ hz.bias)
  have hreorder : g.ShapeRule p.reorder := by
    refine h.permuted.shapeRule h.reorders ?_
    unfold Survey.weightOrder
    split <;> decide
  have hconvolution :
      g.ShapeRule ⟨p.kind n.activation, [p.data, p.filter, p.bias], [p.bracket.output]⟩ := by
    unfold Survey.weightOrder at hfilterDims
    unfold Survey.kind
    rw [hstride, hdilation]
    by_cases hdepthwise : p.depthwise
    · obtain ⟨hsingle, hmultiple⟩ := of_decide_eq_true hdepthwise
      rw [if_pos hdepthwise, hz.weight, hdepth, hsingle] at hfilterDims
      have hfilter : g.dims? p.filter = some [1, z.kernelHeight, z.kernelWidth, z.outputs] :=
        Graph.dims?_of_tensor? hfilter hfilterDims
      rw [if_pos hdepthwise]
      refine .depthwiseConv2d hdata hfilter hbias (hbiasCount.trans houtputs.symm)
        ?_ hz.vertical hz.horizontal (Graph.dims?_of_tensor? hout houtDims)
      rw [hchannels, hsingle, houtputs, hmultiple, Nat.one_mul, Nat.mul_one]
    · rw [if_neg hdepthwise, hz.weight] at hfilterDims
      have hfilter : g.dims? p.filter = some [z.outputs, z.kernelHeight, z.kernelWidth, z.depth] :=
        Graph.dims?_of_tensor? hfilter hfilterDims
      rw [if_neg hdepthwise]
      refine .conv2d hdata hfilter hbias (hbiasCount.trans houtputs.symm)
        ⟨hz.depth, ?_⟩ hz.vertical hz.horizontal (Graph.dims?_of_tensor? hout houtDims)
      rw [hdepth, hchannels]
      exact Nat.dvd_mul_right _ _
  exact p.forall_mem_chain h.lifts.shapeRule henter hpads hreorder hconvolution hleave

end Plan

end Convolution

/-! ## Transposed convolution -/

namespace TransposedConvolution

theorem AddsBias.shapeRule {channels batch rows columns : Nat} {output cropped : TensorId}
    {out : Tensor} {bias : Option TensorId} {ops : List Operator}
    (h : AddsBias g first channels output out bias ops cropped)
    (hout : g.tensor? output = some out)
    (hdims : out.shape.dims = [batch, rows, columns, channels])
    (hbias : ∀ id ∈ bias, ∀ t, g.tensor? id = some t → t.shape.dims = [channels]) :
    ∀ op ∈ ops, g.ShapeRule op := by
  cases h with
  | unbiased => exact fun _ hop => nomatch hop
  | biased hknown _ hresult =>
    refine List.forall_mem_singleton.mpr (.add ⟨_, _, [channels, columns, rows, batch], hresult.dims?,
      Graph.dims?_of_tensor? hknown (hbias _ rfl _ hknown), ?_, Graph.dims?_of_tensor? hout hdims⟩)
    show Value.commonDims out.shape.dims.reverse _ = _
    rw [hdims]
    simp [Value.commonDims]

namespace Plan

variable {n : TransposedConvolution} {p : Plan} {z : Canvas}

structure Frames (p : Plan) (g : Graph) (bias : Option TensorId) (z : Canvas) : Prop where
  input : p.x.shape.dims = [z.batch, z.channels, z.height, z.width]
  weight : p.w.shape.dims = [z.channels, z.outputs, z.kernelHeight, z.kernelWidth]
  output : g.dims? p.lifted.output = some [z.batch, z.outputs, z.rows, z.columns]
  padding : p.lifted.params.padding = [z.padding.height, z.padding.width]
  bias : ∀ id ∈ bias, ∀ t, g.tensor? id = some t → t.shape.dims = [z.outputs]

theorem Fits.on_of_frames (h : p.Fits n g first) (hz : p.Frames g n.bias z) : p.On z := by
  obtain ⟨y, hy, hyDims⟩ := Option.map_eq_some_iff.mp hz.output
  obtain ⟨out, hout, houtDims⟩ := h.brackets.declared_output hy hyDims
  cases h.out.symm.trans hout
  refine ⟨houtDims, hz.padding, ?_⟩
  have houtputs := h.outputChannels
  rw [hz.weight] at houtputs
  exact (Option.some.inj houtputs).symm

theorem Fits.shapeRule (h : p.Fits n g first) (hz : p.Frames g n.bias z) :
    ∀ op ∈ p.chain, g.ShapeRule op := by
  have hon : p.On z := h.on_of_frames hz
  obtain ⟨inner, hinner, hinnerDims⟩ := h.brackets.declared_input h.input hz.input
  obtain ⟨henter, hleave⟩ := h.brackets.shapeRule hz.output
  obtain ⟨_, filter, hfilter, hfilterDims⟩ := h.permuted.declared h.weight
  obtain ⟨convolved, hconvolved, hconvolvedDims⟩ := h.convolved_declared
  obtain ⟨cropped, hcropped, hcroppedDims⟩ := h.cropped_declared
  rw [h.fullShape_dims hon] at hconvolvedDims
  have hconvolution :
      g.ShapeRule ⟨.transposeConv ⟨.valid, p.stride⟩, [p.outputShape, p.filter, p.bracket.input],
        [p.convolved]⟩ := by
    obtain ⟨dims, hdims, hshape⟩ := h.shapes
    have hsizes : p.fullShape.dims.mapM toInt32? = some dims := hdims
    rw [h.fullShape_dims hon] at hsizes
    rw [hz.weight] at hfilterDims
    exact .transposeConv (hshape.sizes? (mapM_ofInt32? hsizes))
      (Graph.dims?_of_tensor? hfilter hfilterDims) (Graph.dims?_of_tensor? hinner hinnerDims)
      (Graph.dims?_of_tensor? hconvolved hconvolvedDims)
  have hslice : ∀ op ∈ p.slice, g.ShapeRule op := by
    intro op hop
    obtain ⟨c, hc, rfl⟩ := List.mem_map.mp hop
    have hcrop : p.crop = some c := Option.mem_toList.mp hc
    obtain ⟨hbegin, hsize⟩ := h.window hon hcrop
    have huncropped : g.dims? c.uncropped = some z.fullDims := by
      have := Graph.dims?_of_tensor? hconvolved hconvolvedDims
      unfold Plan.convolved at this
      rw [hcrop] at this
      exact this
    exact .slice huncropped hbegin hsize z.windowIn
      (Graph.dims?_of_tensor? hcropped (hcroppedDims.trans hon.out))
  have hreorder : g.ShapeRule p.reorder := h.permuted.shapeRule h.reorders (by decide)
  have hadds : ∀ op ∈ p.addition, g.ShapeRule op := by
    have hout : p.out.shape.dims = [z.batch, z.rows, z.columns, p.outputChannels] := by
      rw [hon.out, hon.channels]
      rfl
    exact h.adds.shapeRule h.out hout (hon.channels ▸ hz.bias)
  exact p.forall_mem_chain h.lifts.shapeRule henter hreorder hconvolution hslice hadds hleave

end Plan

end TransposedConvolution

/-! ## Batch normalization -/

namespace BatchNorm

theorem commonDims_of_repeated {dims dims' : List Nat}
    (h : List.Forall₂ (fun d d' => d = d' ∨ d' = 1) dims dims') :
    Value.commonDims dims dims' = some dims := by
  induction h with
  | nil => rfl
  | cons hd _ ih => rw [Value.commonDims, if_pos hd, ih, Option.map_some]

theorem commonDims_channelShape {dims : List Nat} {channels : Nat} (h : dims[1]? = some channels) :
    Value.commonDims dims.reverse (channelShape dims.length channels).dims.reverse =
      some dims.reverse := by
  refine commonDims_of_repeated (List.forall₂_reverse_iff.mpr ?_)
  match dims, h with
  | d :: _ :: rest, rfl =>
    have hrest : List.Forall₂ (fun d d' => d = d' ∨ d' = 1) rest (List.replicate rest.length 1) := by
      induction rest with
      | nil => exact .nil
      | cons _ _ ih => exact .cons (.inr rfl) ih
    exact .cons (.inr rfl) (.cons (.inl rfl) hrest)

theorem AlongChannels.broadcasts {x : Tensor} {channels : Nat} {b : Buffer}
    {source id result : TensorId} (h : AlongChannels x.rank channels b)
    (hchannels : x.shape.dims[1]? = some channels) (hid : g.Operand first id b)
    (hsource : g.dims? source = some x.shape.dims) (hresult : g.dims? result = some x.shape.dims) :
    g.Broadcasts source id result := by
  refine ⟨_, _, _, hsource, hid.dims?, ?_, hresult.trans (congrArg some (List.reverse_reverse _).symm)⟩
  rw [h.shape]
  exact commonDims_channelShape hchannels

theorem Plan.Fits.shapeRule {n : BatchNorm} {p : Plan} {x y : Tensor} {channels : Nat}
    {scale shift : Buffer} (h : p.Fits x scale shift g first)
    (hfolds : n.Folds g x y channels scale shift) (hsame : y.shape.dims = x.shape.dims) :
    ∀ op ∈ p.chain n, g.ShapeRule op := by
  have hinput : g.dims? n.input = some x.shape.dims := Graph.dims?_of_tensor? hfolds.input rfl
  have houtput : g.dims? n.output = some x.shape.dims := Graph.dims?_of_tensor? hfolds.output hsame
  unfold chain
  cases hunquantized : p.unquantized with
  | none =>
    refine List.forall_mem_cons.mpr ⟨.mul ?_, List.forall_mem_singleton.mpr (.add ?_)⟩
    · exact hfolds.scale.broadcasts hfolds.channelCount h.scale hinput h.scaled.dims?
    · exact hfolds.shift.broadcasts hfolds.channelCount h.shift h.scaled.dims? houtput
  | some u =>
    obtain ⟨hdequantized, hshifted⟩ := h.unquantized u hunquantized
    refine List.forall_mem_cons.mpr ⟨.dequantize hinput hdequantized.dims?,
      List.forall_mem_cons.mpr ⟨.mul ?_, List.forall_mem_cons.mpr
      ⟨.add ?_, List.forall_mem_singleton.mpr (.quantize hshifted.dims? houtput)⟩⟩⟩
    · exact hfolds.scale.broadcasts hfolds.channelCount h.scale hdequantized.dims? h.scaled.dims?
    · exact hfolds.shift.broadcasts hfolds.channelCount h.shift h.scaled.dims? hshifted.dims?

end BatchNorm

end GraphLowering
