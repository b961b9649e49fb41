import GraphLowering.Lowering.Chain
import GraphLowering.Lowering.Lift
import GraphLowering.Lowering.Report

/-!
# Lowering of transposed convolution

The chain, with the optional operators in brackets:

[reshape x] [reshape w] transpose x, transpose w, convolution [slice] [add] transpose y [reshape y]

The transposed convolution of the target format has neither padding nor bias. Padding is cut off its
result by a slice, and the bias is added after that.
-/

namespace GraphLowering

namespace TransposedConvolution

def lowering : String := "GENERIC_DECONV"

/-- From `[I, O, kh, kw]` to `[O, kh, kw, I]`. -/
def weightPermutation : List Nat := [1, 2, 3, 0]

structure Crop where
  /-- The shape of the result with its padding. -/
  fullShape : Shape
  /-- The result with its padding. -/
  uncropped : TensorId
  begin : TensorId
  size : TensorId

def crop (out : Tensor) (padding : List Nat) : Draft Crop := do
  let (ph, pw) ← Lift.perAxis padding
  let height ← Lift.paddedSize lowering (← entry out.shape.dims 1) ph
  let width ← Lift.paddedSize lowering (← entry out.shape.dims 2) pw
  let fullShape : Shape := ⟨(out.shape.dims.set 1 height).set 2 width⟩
  let ph ← Lift.int32 lowering "padding" ph
  let pw ← Lift.int32 lowering "padding" pw
  let begin ← Draft.int32Operand [0, ph, pw, 0]
  let size ← Draft.int32Operand (← Lift.int32Shape lowering out.shape)
  let uncropped ← Draft.intermediate ⟨out.elementType, fullShape⟩ out.quantization
  return ⟨fullShape, uncropped, begin, size⟩

/-- Puts the slice that cuts off the padding, if there is any, after the convolution. Also gives the
shape of the result of the convolution. -/
def cropChain (ops : List Operator) (result : TensorId) (out : Tensor) (params : ConvParams) :
    Draft (List Operator × Shape) := do
  if params.hasPadding then
    let c ← crop out params.padding
    let ops ← Chain.changeOutputs ops 1 (setEntry · 0 c.uncropped)
    return (ops.insertIdx 2 ⟨.slice, [c.uncropped, c.begin, c.size], [result]⟩, c.fullShape)
  else
    return (ops, out.shape)

def checkBias (id : TensorId) (channels : Nat) (outputType : ElementType) : Draft Unit := do
  let t ← Draft.tensor id
  let length := t.shape.elementCount
  if length ≠ 1 ∧ length ≠ channels then
    reject (.precondition lowering (.biasLength t.name length channels))
  else if t.elementType ≠ outputType then
    reject (.precondition lowering (.biasType t.name t.elementType outputType))

/-- Puts the addition of a bias, if there is one, before the last transpose. -/
def addBiasToChain (ops : List Operator) (bias : Option TensorId) (channels : Nat) (out : Tensor) :
    Draft (List Operator) := do
  match bias with
  | none => return ops
  | some id =>
    checkBias id channels out.elementType
    let tail := ops.length - 2
    let biased ← Chain.resultAt ops tail
    let unbiased ← Draft.intermediate out.type out.quantization
    let ops ← Chain.changeOutputs ops tail (setEntry · 0 unbiased)
    return ops.insertIdx (tail + 1) ⟨.add .none, [unbiased, id], [biased]⟩

/-- The chain of a transposed convolution in two dimensions: the convolution between its transposes,
with the slice, the shape of its result, the transposed weight and the bias put in, and the reshapes
around it. -/
def assemble (n : TransposedConvolution) (l : Lifted) (window : Window) (outputChannels : Nat) :
    Draft (List Operator) := do
  let convolution : Operator := ⟨.transposeConv window, [l.weight, l.input], [l.output]⟩
  let ops ← Layout.wrap lowering [convolution] 1 0
  let result ← Chain.resultAt ops 1
  let out ← Draft.tensor result
  let (ops, fullShape) ← cropChain ops result out l.params
  let outputShape ← Draft.int32Operand (← Lift.int32Shape lowering fullShape)
  let ops ← Chain.changeInputs ops 1 fun operands => pure (outputShape :: operands)
  let (reorder, filter) ← Layout.permute lowering l.weight weightPermutation
  let ops ← Chain.changeInputs ops 1 (setEntry · 1 filter)
  let ops := ops.insertIdx 1 reorder
  let ops ← addBiasToChain ops n.bias outputChannels out
  return l.before ++ ops ++ l.after

def draft (n : TransposedConvolution) : Draft (List Operator) := do
  let l ← Draft.liftConvolution lowering n.input n.weight n.output n.params
  let inputChannels ← entry (← Draft.tensor l.input).shape.dims 1
  let weightShape := (← Draft.tensor l.weight).shape
  let weightChannels ← entry weightShape.dims 0
  if weightChannels ≠ inputChannels then
    reject (.precondition lowering (.transposedChannels inputChannels weightChannels))
  let outputChannels ← entry weightShape.dims 1
  let (sh, sw) ← Lift.perAxis l.params.stride
  n.assemble l ⟨.valid, ⟨← Lift.uint32 lowering "stride" sh, ← Lift.uint32 lowering "stride" sw⟩⟩
    outputChannels

def lower (n : TransposedConvolution) (d : Detachment) (options : Options) : Edit Lowered := do
  if n.params.groups ≠ 1 then
    reject (.precondition lowering (.groupedTransposed n.params.groups))
  if n.params.dilation.any (· ≠ 1) then
    reject (.precondition lowering (.dilatedTransposed n.params.dilation))
  let output ← liftGraph ((← Edit.graph).tensor n.output)
  let chain ← Draft.run output.name n.draft
  let nodes ← Edit.emit chain d
  if options.verifyTransposed then
    Edit.verify chain
  return ⟨nodes, []⟩

end TransposedConvolution

end GraphLowering
