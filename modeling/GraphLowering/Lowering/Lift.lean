import GraphLowering.Lowering.Layout

/-!
# One-dimensional convolutions as two-dimensional ones

The target format has convolutions of images only. A one-dimensional convolution becomes one of
images of height one: its operands get a unit axis at position two, and its parameters an entry for
it. The input is reshaped by an operator, and so is the output, back to its rank; a constant weight
is reshaped at once.
-/

namespace GraphLowering

namespace Lift

def axis : Nat := 2

def int32 (lowering parameter : String) (value : Nat) : Draft Int32 :=
  orReject (.precondition lowering (.int32Range parameter value)) (toInt32? value)

def uint32 (lowering parameter : String) (value : Nat) : Draft Nat :=
  if value ≤ maxUInt32 then pure value
    else reject (.precondition lowering (.uint32Range parameter value))

def int32Shape (lowering : String) (shape : Shape) : Draft (List Int32) :=
  orReject (.precondition lowering (.shapeRange shape)) shape.toInt32s?

def paddedSize (lowering : String) (size padding : Nat) : Draft Nat :=
  if size + padding * 2 ≤ maxSize then pure (size + padding * 2)
  else reject (.precondition lowering (.paddingRange padding size))

/-- The two entries of a parameter of a two-dimensional convolution. -/
def perAxis (entries : List Nat) : Draft (Nat × Nat) := do
  return (← entry entries 0, ← entry entries 1)

def quantization : Option Quantization → Draft (Option Quantization)
  | none => pure none
  | some q => do return some (← orFault .quantizedAxis (q.insertAxis? axis))

def reshape (lowering : String) (source : TensorId) (shape : Shape) (result : TensorId) :
    Draft Operator := do
  let newShape ← int32Shape lowering shape
  let shapeOperand ← Draft.int32Operand newShape
  return ⟨.reshape newShape, [source, shapeOperand], [result]⟩

def operandName (owner tensor : String) : String :=
  owner ++ "_" ++ tensor ++ "_4d_input"

def outputName (owner : String) : String :=
  owner ++ "_4d_output"

def expand (lowering : String) (id : TensorId) : Draft (Operator × TensorId) := do
  let t ← Draft.tensor id
  let shape := t.shape.insertAxis axis
  let quantization ← quantization t.quantization
  let expanded ← Draft.namedIntermediate (operandName (← Draft.owner) t.name)
    ⟨t.elementType, shape⟩ quantization
  return (← reshape lowering id shape expanded, expanded)

def expandConstant (lowering : String) (id : TensorId) : Draft TensorId := do
  let t ← Draft.tensor id
  let data ← orReject (.precondition lowering (.bufferShape t.name))
    (t.data.bind (·.reshaped? (t.shape.insertAxis axis)))
  let quantization ← quantization t.quantization
  Draft.namedOperand (operandName (← Draft.owner) t.name) data quantization

/-- A weight with a unit axis and the reshapes that compute it, of which a constant needs none. -/
def expandWeight (lowering : String) (id : TensorId) : Draft (List Operator × TensorId) := do
  if (← Draft.tensor id).isConstant then
    return ([], ← expandConstant lowering id)
  else
    let (op, expanded) ← expand lowering id
    return ([op], expanded)

/-- A tensor with a unit axis that stands for the output, and the reshape that computes the output
from it. -/
def collapse (lowering : String) (id : TensorId) : Draft (Operator × TensorId) := do
  let t ← Draft.tensor id
  let quantization ← quantization t.quantization
  let expanded ← Draft.namedIntermediate (outputName (← Draft.owner))
    ⟨t.elementType, t.shape.insertAxis axis⟩ quantization
  return (← reshape lowering expanded t.shape id, expanded)

def rank (lowering : String) (input weight output : TensorId) : Draft Nat := do
  let inputRank := (← Draft.tensor input).rank
  let weightRank := (← Draft.tensor weight).rank
  let outputRank := (← Draft.tensor output).rank
  if ¬ (inputRank = 3 ∨ inputRank = 4) ∨ ¬ (weightRank = 3 ∨ weightRank = 4) then
    reject (.precondition lowering (.unsupportedRanks inputRank weightRank))
  else if inputRank ≠ weightRank ∨ inputRank ≠ outputRank then
    reject (.precondition lowering (.differentRanks inputRank weightRank outputRank))
  else
    return inputRank

def parameterObjection? (params : ConvParams) (spatial : Nat) : Option Objection :=
  let count := fun (parameter, entries) =>
    if entries.length = spatial then none
      else some (Objection.entryCount parameter entries.length spatial)
  let positive := fun (parameter, entries) =>
    if (0 : Nat) ∈ entries then some (Objection.zeroEntry parameter entries) else none
  ([("stride", params.stride), ("padding", params.padding),
    ("dilation", params.dilation)].findSome? count)
    <|> ([("stride", params.stride), ("dilation", params.dilation)].findSome? positive)

end Lift

/-- The operands and parameters of a two-dimensional convolution. -/
structure Lifted where
  input : TensorId
  weight : TensorId
  output : TensorId
  params : ConvParams
  /-- The reshapes that compute the operands. -/
  before : List Operator
  /-- The reshape that computes the output, if the rank changed. -/
  after : List Operator

def Draft.liftConvolution (lowering : String) (input weight output : TensorId) (params : ConvParams) :
    Draft Lifted := do
  let rank ← Lift.rank lowering input weight output
  match Lift.parameterObjection? params (rank - 2) with
  | some objection => reject (.precondition lowering objection)
  | none =>
    if rank = 4 then
      return ⟨input, weight, output, params, [], []⟩
    else
      let (inputOp, input) ← Lift.expand lowering input
      let (weightOps, weight) ← Lift.expandWeight lowering weight
      let (outputOp, output) ← Lift.collapse lowering output
      return ⟨input, weight, output, params.lifted, inputOp :: weightOps, [outputOp]⟩

end GraphLowering
