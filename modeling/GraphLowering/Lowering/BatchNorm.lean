import GraphLowering.Lowering.Chain
import GraphLowering.Lowering.Draft
import GraphLowering.Lowering.Report

/-!
# Lowering of batch normalization

With fixed statistics, normalization of a channel is `x * scale + shift` for

* `scale = weight / sqrt (variance + epsilon)`,
* `shift = bias - weight * mean / sqrt (variance + epsilon)`.

The chain is a multiplication and an addition, between a dequantization and a quantization if the
input is quantized.
-/

namespace GraphLowering

namespace BatchNorm

def lowering : String := "BATCH_NORM"

def foldChannel (epsilon weight bias mean variance : Float32) : Float32 × Float32 :=
  let deviation := (variance + epsilon).sqrt
  (weight / deviation, bias - weight * mean / deviation)

/-- The scales and the shifts of the channels, as many as the shortest list has. -/
def fold (epsilon : Float32) (weight bias mean variance : List Float32) : List Float32 × List Float32 :=
  (((weight.zip bias).zip (mean.zip variance)).map fun ((w, b), (m, v)) =>
    foldChannel epsilon w b m v).unzip

def channelValues (id : TensorId) (channels : Nat) : Edit (List Float32) := do
  let t ← liftGraph ((← Edit.graph).tensor id)
  let data ← orReject (.precondition lowering (.notConstant t.name)) t.data
  let values ← orReject (.precondition lowering (.notFloat t.name t.elementType)) data.floats?
  if values.size = channels then
    return values.toList
  else
    reject (.precondition lowering (.channelValues t.name values.size channels))

/-- The shape `[1, C, 1, …]`, which is laid along the channel axis of a tensor of the given rank. -/
def channelShape (rank channels : Nat) : Shape :=
  ⟨(List.replicate rank 1).set 1 channels⟩

def channelBuffer (rank channels : Nat) (values : List Float32) : Edit Buffer :=
  orReject (.precondition lowering .channelCount)
    ((Buffer.ofFloats values).reshaped? (channelShape rank channels))

def draft (n : BatchNorm) (x : Tensor) (scale shift : Buffer) : Draft (List Operator) := do
  let scale ← Draft.operand scale none
  let shift ← Draft.operand shift none
  let float : TensorType := ⟨.f32, x.shape⟩
  if x.isQuantized then
    let dequantized ← Draft.intermediate float none
    let scaled ← Draft.intermediate float none
    let shifted ← Draft.intermediate float none
    return [
      ⟨.dequantize, [n.input], [dequantized]⟩,
      ⟨.mul .none, [dequantized, scale], [scaled]⟩,
      ⟨.add n.activation, [scaled, shift], [shifted]⟩,
      ⟨.quantize, [shifted], [n.output]⟩]
  else
    let scaled ← Draft.intermediate float none
    return [
      ⟨.mul .none, [n.input, scale], [scaled]⟩,
      ⟨.add n.activation, [scaled, shift], [n.output]⟩]

def lower (n : BatchNorm) (d : Detachment) : Edit Lowered := do
  let x ← liftGraph ((← Edit.graph).tensor n.input)
  if x.rank < 2 then
    reject (.precondition lowering (.noChannelAxis x.name x.shape))
  let channels ← entry x.shape.dims 1
  let weight ← channelValues n.weight channels
  let bias ← channelValues n.bias channels
  let mean ← channelValues n.mean channels
  let variance ← channelValues n.variance channels
  let (scale, shift) := fold n.epsilon weight bias mean variance
  if ¬ x.isQuantized ∧ x.elementType ≠ .f32 then
    reject (.precondition lowering (.unquantizedInput x.name x.elementType))
  let output ← liftGraph ((← Edit.graph).tensor n.output)
  if x.isQuantized ∧ ¬ output.isQuantized then
    reject (.precondition lowering (.unquantizedOutput output.name))
  let scale ← channelBuffer x.rank channels scale
  let shift ← channelBuffer x.rank channels shift
  let chain ← Draft.run output.name (n.draft x scale shift)
  let nodes ← Edit.emit chain d
  return ⟨nodes, []⟩

end BatchNorm

end GraphLowering
