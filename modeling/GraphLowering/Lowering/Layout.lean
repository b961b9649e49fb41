import GraphLowering.Lowering.Draft

/-!
# Channel-first and channel-last images

Composites have the channels of an image on axis one, the convolutions of the target format on the
last axis. `Layout.bracket` prepares the transposes that lead from one layout to the other and back.
-/

namespace GraphLowering

namespace Layout

/-- From `[N, C, H, W]` to `[N, H, W, C]`. -/
def toChannelLast : List Nat := [0, 2, 3, 1]

/-- From `[N, H, W, C]` to `[N, C, H, W]`. -/
def toChannelFirst : List Nat := [0, 3, 1, 2]

/-- A permutation as an operand: 32-bit integers, which keep the low bits of larger entries. -/
def permutationOperand (perm : List Nat) : Draft TensorId :=
  Draft.int32Operand (perm.map Int32.ofNat)

def channelLastCopy (lowering : String) (id : TensorId) : Draft TensorId := do
  let t ← Draft.tensor id
  let shape ← orReject (.precondition lowering (.notChannelFirst t.name t.shape))
    (t.shape.permuted? toChannelLast)
  Draft.intermediate ⟨t.elementType, shape⟩ (t.quantization.map (·.permuted toChannelLast))

/-- The way into the channel-last layout and out of it. -/
structure Bracket where
  /-- The transpose of the channel-first input to `input`. -/
  enter : Operator
  /-- The channel-last input. -/
  input : TensorId
  /-- The channel-last output. -/
  output : TensorId
  /-- The transpose of `output` to the channel-first output. -/
  leave : Operator

def bracket (lowering : String) (input output : TensorId) : Draft Bracket := do
  let toFirst ← permutationOperand toChannelFirst
  let toLast ← permutationOperand toChannelLast
  let innerInput ← channelLastCopy lowering input
  let innerOutput ← channelLastCopy lowering output
  return {
    enter := ⟨.transpose, [input, toLast], [innerInput]⟩
    input := innerInput
    output := innerOutput
    leave := ⟨.transpose, [innerOutput, toFirst], [output]⟩ }

/-- A chain of operators on channel-first images as one on channel-last images. One operand of its
first operator and one result of its last operator change their layout; transposes before and after
the chain make up for it. The operators that a lowering has to add are put into this chain. -/
def wrap (lowering : String) (ops : List Operator) (inputSlot outputSlot : Nat) :
    Draft (List Operator) := do
  let input ← orReject (.precondition lowering (.noChainInput inputSlot))
    (ops.head?.bind (·.inputs[inputSlot]?))
  let output ← orReject (.precondition lowering (.noChainOutput outputSlot))
    (ops.getLast?.bind (·.outputs[outputSlot]?))
  let b ← bracket lowering input output
  let entered := ops.modifyHead fun op => { op with inputs := op.inputs.set inputSlot b.input }
  let left := entered.modify (ops.length - 1) fun op =>
    { op with outputs := op.outputs.set outputSlot b.output }
  return b.enter :: left ++ [b.leave]

def permute (lowering : String) (source : TensorId) (perm : List Nat) :
    Draft (Operator × TensorId) := do
  let permOperand ← permutationOperand perm
  let t ← Draft.tensor source
  let shape ← orReject (.precondition lowering (.wrongPermutation perm t.name t.shape))
    (t.shape.permuted? perm)
  let result ← Draft.intermediate ⟨t.elementType, shape⟩ (t.quantization.map (·.permuted perm))
  return (⟨.transpose, [source, permOperand], [result]⟩, result)

end Layout

end GraphLowering
