import GraphLowering.Lowering.Chain
import GraphLowering.Lowering.Lift
import GraphLowering.Lowering.Report

/-!
# Lowering of convolution

The chain, with the optional operators in brackets:

[reshape x] [reshape w] transpose x [pad] transpose w convolution transpose y [reshape y]

The reshapes appear for one-dimensional convolutions. The convolution is depthwise if each group has
one input channel and one output channel.
-/

namespace GraphLowering

namespace Convolution

def lowering : String := "GENERIC_CONV"

/-- From `[O, I, kh, kw]` to `[O, kh, kw, I]`. -/
def weightPermutation : List Nat := [0, 2, 3, 1]

/-- From `[O, 1, kh, kw]` to `[1, kh, kw, O]`. -/
def depthwisePermutation : List Nat := [1, 2, 3, 0]

/-- The scale of a bias is the product of the scales of the input and the weight, for each output
channel if the weight is quantized along an axis. -/
def biasQuantization (input weight : Quantization) : Quantization :=
  let inputScale := input.scales.head?.getD 1
  let scales := weight.scales.map (· * inputScale)
  let zeroPoints := List.replicate scales.length 0
  if weight.isPerAxis then .perAxis scales zeroPoints 0 else ⟨scales, zeroPoints, none⟩

def zeroBias (channels : Nat) (inputType : ElementType) (input weight : Option Quantization) :
    Draft TensorId := do
  if inputType.isFloat then
    Draft.operand (← allocate (.vector (.f32 (.uniform channels 0)))) none
  else
    let quantization := input.bind fun i => weight.map fun w => biasQuantization i w
    Draft.operand (← allocate (.vector (.i32 (.uniform channels 0)))) quantization

/-- A given bias with one element for each output channel. One element is repeated. -/
def channelBias (id : TensorId) (channels : Nat) : Draft TensorId := do
  let t ← Draft.tensor id
  let length := t.shape.elementCount
  if length = channels then
    return id
  else if length ≠ 1 then
    reject (.precondition lowering (.biasLength t.name length channels))
  else
    let data ← orReject (.precondition lowering (.biasNotConstant t.name))
      (t.data.bind (·.repeatFirst? channels))
    Draft.operand (← allocate data) t.quantization

def totalChannels (groupWidth groups : Nat) : Draft Nat :=
  if groupWidth * groups ≤ maxSize then pure (groupWidth * groups) else faulty .channelProduct

/-- Warns of a convolution in groups, or refuses it if such are denied. -/
def grouped (options : Options) (groups : Nat) : Draft (List Diagnostic) := do
  let owner ← Draft.owner
  let objection := Objection.groupedConvolution owner groups
  if options.denyGrouped then
    reject (.precondition lowering objection)
  else
    Draft.note (.groupedConvolution owner groups)
    return [⟨objection.message⟩]

def warnings (options : Options) (depthwise : Bool) (inputChannels groupWidth groups : Nat) :
    Draft (List Diagnostic) :=
  if ¬ depthwise ∧ inputChannels ≠ groupWidth then grouped options groups else pure []

def biasOperand (n : Convolution) (channels : Nat) (x w : Tensor) : Draft TensorId :=
  match n.bias with
  | none => zeroBias channels x.elementType x.quantization w.quantization
  | some id => channelBias id channels

def pad (id : TensorId) (padding : List Nat) : Draft (Operator × TensorId) := do
  let (ph, pw) ← Lift.perAxis padding
  let t ← Draft.tensor id
  let height ← Lift.paddedSize lowering (← entry t.shape.dims 1) ph
  let width ← Lift.paddedSize lowering (← entry t.shape.dims 2) pw
  let ph ← Lift.int32 lowering "padding" ph
  let pw ← Lift.int32 lowering "padding" pw
  let padded ← Draft.intermediate ⟨t.elementType, ⟨(t.shape.dims.set 1 height).set 2 width⟩⟩
    t.quantization
  let paddings ← Draft.operand ⟨⟨[4, 2]⟩, .i32 (.listed [0, 0, ph, ph, pw, pw, 0, 0])⟩ none
  return (⟨.pad, [id, paddings], [padded]⟩, padded)

/-- Puts the padding, if there is any, between the first transpose and the convolution. -/
def padChain (ops : List Operator) (params : ConvParams) : Draft (List Operator) := do
  if params.hasPadding then
    let (op, padded) ← pad (← Chain.resultAt ops 0) params.padding
    let ops ← Chain.changeInputs ops 1 (setEntry · 0 padded)
    return ops.insertIdx 1 op
  else
    return ops

/-- What is known of a convolution before its chain is drafted. -/
structure Survey where
  lifted : Lifted
  /-- The input with two spatial axes. -/
  x : Tensor
  /-- The weight with two spatial axes. -/
  w : Tensor
  inputChannels : Nat
  outputChannels : Nat
  /-- The number of input channels of a group. -/
  groupWidth : Nat
  stride : PerAxis
  dilation : PerAxis

namespace Survey

/-- Whether each group has one input channel and one output channel. -/
def depthwise (q : Survey) : Bool :=
  q.groupWidth = 1 ∧ q.outputChannels = q.lifted.params.groups

def kind (q : Survey) (activation : Activation) : Primitive :=
  if q.depthwise then .depthwiseConv2d ⟨.valid, q.stride⟩ q.dilation 1 activation
  else .conv2d ⟨.valid, q.stride⟩ q.dilation activation

def weightOrder (q : Survey) : List Nat :=
  if q.depthwise then depthwisePermutation else weightPermutation

end Survey

def survey (n : Convolution) : Draft Survey := do
  let l ← Draft.liftConvolution lowering n.input n.weight n.output n.params
  let x ← Draft.tensor l.input
  let inputChannels ← entry x.shape.dims 1
  let w ← Draft.tensor l.weight
  let outputChannels ← entry w.shape.dims 0
  let groupWidth ← entry w.shape.dims 1
  let channels ← totalChannels groupWidth l.params.groups
  if inputChannels ≠ channels then
    reject (.precondition lowering (.inputChannels inputChannels groupWidth l.params.groups))
  let (sh, sw) ← Lift.perAxis l.params.stride
  let stride : PerAxis := ⟨← Lift.uint32 lowering "stride" sh, ← Lift.uint32 lowering "stride" sw⟩
  let (dh, dw) ← Lift.perAxis l.params.dilation
  let dilation : PerAxis := ⟨← Lift.uint32 lowering "dilation" dh, ← Lift.uint32 lowering "dilation" dw⟩
  return ⟨l, x, w, inputChannels, outputChannels, groupWidth, stride, dilation⟩

/-- The chain of a convolution: the convolution between its transposes, with the padding, the
transposed weight and the bias put in, and the reshapes around it. -/
def assemble (n : Convolution) (q : Survey) : Draft (List Operator) := do
  let convolution : Operator :=
    ⟨q.kind n.activation, [q.lifted.input, q.lifted.weight], [q.lifted.output]⟩
  let ops ← Layout.wrap lowering [convolution] 0 0
  let ops ← padChain ops q.lifted.params
  -- the convolution stands before the last transpose
  let position := ops.length - 2
  let (reorder, filter) ← Layout.permute lowering q.lifted.weight q.weightOrder
  let ops ← Chain.changeInputs ops position (setEntry · 1 filter)
  let ops := ops.insertIdx position reorder
  let bias ← n.biasOperand q.outputChannels q.x q.w
  let ops ← Chain.changeInputs ops (position + 1) fun operands => pure (operands ++ [bias])
  return q.lifted.before ++ ops ++ q.lifted.after

def draft (n : Convolution) (options : Options) : Draft (List Operator × List Diagnostic) := do
  let q ← n.survey
  let diagnostics ← warnings options q.depthwise q.inputChannels q.groupWidth q.lifted.params.groups
  return (← n.assemble q, diagnostics)

def lower (n : Convolution) (d : Detachment) (options : Options) : Edit Lowered := do
  if n.params.groups = 0 then
    reject (.precondition lowering .noGroups)
  let output ← liftGraph ((← Edit.graph).tensor n.output)
  let (chain, diagnostics) ← Draft.run output.name (n.draft options)
  let nodes ← Edit.emit chain d
  Edit.verify chain
  return ⟨nodes, diagnostics⟩

end Convolution

end GraphLowering
