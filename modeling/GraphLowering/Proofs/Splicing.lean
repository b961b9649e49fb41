import GraphLowering.Lowering.Convolution
import GraphLowering.Lowering.TransposedConvolution

/-!
# Chains by their parts

The chain of a convolution is made by changes to a list at positions of it. The positions are there,
so no change ends in a fault, and the chain is its parts one after the other
(`Convolution.assemble_eq`, `TransposedConvolution.assemble_eq`). What is said about a chain is said
about these parts.
-/

namespace GraphLowering

theorem Layout.wrap_single (lowering : String) (kind : Primitive) {inputs : List TensorId}
    {slot : Nat} {input : TensorId} (hinput : inputs[slot]? = some input) (output : TensorId) :
    wrap lowering [⟨kind, inputs, [output]⟩] slot 0 = bracket lowering input output >>= fun b =>
      pure [b.enter, ⟨kind, inputs.set slot b.input, [b.output]⟩, b.leave] := by
  unfold wrap
  simp only [List.head?_cons, Option.bind_some, hinput]
  rfl

namespace Convolution

/-- The padding of the channel-last input, if there is any, and the tensor that the convolution
reads. -/
def padIfNeeded (id : TensorId) (params : ConvParams) : Draft (List Operator × TensorId) := do
  if params.hasPadding then
    let (op, padded) ← pad id params.padding
    return ([op], padded)
  else
    return ([], id)

theorem assemble_eq (n : Convolution) (q : Survey) :
    n.assemble q = do
      let b ← Layout.bracket lowering q.lifted.input q.lifted.output
      let (padding, data) ← padIfNeeded b.input q.lifted.params
      let (reorder, filter) ← Layout.permute lowering q.lifted.weight q.weightOrder
      let bias ← n.biasOperand q.outputChannels q.x q.w
      return q.lifted.before ++ b.enter :: padding
        ++ [reorder, ⟨q.kind n.activation, [data, filter, bias], [b.output]⟩, b.leave] ++
          q.lifted.after := by
  have hinput : [q.lifted.input, q.lifted.weight][0]? = some q.lifted.input := rfl
  simp only [assemble, Layout.wrap_single lowering _ hinput,
    Layout.bracket, padChain, padIfNeeded, bind_assoc, pure_bind]
  refine bind_congr fun toFirst =>
    bind_congr fun toLast => bind_congr fun input => bind_congr fun output => ?_
  by_cases hpadding : q.lifted.params.hasPadding
  · simp [hpadding, Chain.changeInputs, Chain.resultAt, entry, setEntry, orFault]
  · simp [hpadding, Chain.changeInputs, entry, setEntry, orFault]

end Convolution

namespace TransposedConvolution

def cropIfNeeded (out : Tensor) (params : ConvParams) : Draft (Option Crop) := do
  if params.hasPadding then
    return some (← crop out params.padding)
  else
    return none

/-- The addition of a bias, if there is one, and the tensor to which it is added. -/
def addBias (bias : Option TensorId) (channels : Nat) (output : TensorId) (out : Tensor) :
    Draft (List Operator × TensorId) := do
  match bias with
  | none => return ([], output)
  | some id =>
    checkBias id channels out.elementType
    let unbiased ← Draft.intermediate out.type out.quantization
    return ([⟨.add .none, [unbiased, id], [output]⟩], unbiased)

theorem assemble_eq (n : TransposedConvolution) (l : Lifted) (window : Window) (outputChannels : Nat) :
    n.assemble l window outputChannels = do
      let b ← Layout.bracket lowering l.input l.output
      let out ← Draft.tensor b.output
      let crop ← cropIfNeeded out l.params
      let outputShape ← Draft.int32Operand
        (← Lift.int32Shape lowering ((crop.map (·.fullShape)).getD out.shape))
      let (reorder, filter) ← Layout.permute lowering l.weight weightPermutation
      let (addition, cropped) ← addBias n.bias outputChannels b.output out
      let slice := crop.toList.map fun c => ⟨.slice, [c.uncropped, c.begin, c.size], [cropped]⟩
      return l.before ++ [b.enter, reorder, ⟨.transposeConv window, [outputShape, filter, b.input],
          [(crop.map (·.uncropped)).getD cropped]⟩] ++ slice ++ addition ++ b.leave :: l.after := by
  have hinput : [l.weight, l.input][1]? = some l.input := rfl
  simp only [assemble, Layout.wrap_single lowering _ hinput, bind_assoc, pure_bind]
  refine bind_congr fun b => ?_
  simp only [Chain.resultAt, entry, orFault, List.getElem?_cons_succ,
    List.getElem?_cons_zero, pure_bind]
  refine bind_congr fun out => ?_
  unfold cropChain cropIfNeeded addBiasToChain addBias
  by_cases hpadding : l.params.hasPadding
  · cases n.bias with
    | none => simp [hpadding, Chain.changeInputs, Chain.changeOutputs, entry, setEntry, orFault]
    | some id =>
      simp [hpadding, Chain.changeInputs, Chain.changeOutputs,
        Chain.resultAt, entry, setEntry, orFault]
  · cases n.bias with
    | none => simp [hpadding, Chain.changeInputs, entry, setEntry, orFault]
    | some id =>
      simp [hpadding, Chain.changeInputs, Chain.changeOutputs,
        Chain.resultAt, entry, setEntry, orFault]

end TransposedConvolution

end GraphLowering
