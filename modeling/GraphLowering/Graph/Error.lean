import GraphLowering.Graph.Basic

/-!
# What a graph refuses

The reasons for which a graph refuses a tensor, a node or a change of its edges, and their texts.

A text can name element types, and an element type can be without a text; `GraphError.mentions`
lists the types that the text of an error names.
-/

namespace GraphLowering

inductive TypeClash where
  /-- An operand that has to hold 32-bit integers does not. -/
  | int32Operand (slot : Nat) (tensor : String) (found : ElementType)
  /-- The operands and the result of an arithmetic operation differ. -/
  | arithmetic (left right result : ElementType)
  /-- The operand is not quantized, or the result is no floating-point tensor. -/
  | dequantize (data : String) (dataType : ElementType) (out : String) (outType : ElementType)
  /-- The operand cannot be quantized, or the result has no quantization parameters. -/
  | quantize (out : String)
  /-- The data and the result differ. -/
  | passThrough (data : String) (dataType : ElementType) (out : String) (outType : ElementType)
deriving DecidableEq

namespace TypeClash

def message : TypeClash → String
  | int32Operand slot tensor found =>
    "input " ++ slot.repr ++ " '" ++ tensor ++ "' must be i32, found " ++ found.text
  | arithmetic left right result =>
    "operands " ++ left.text ++ " and " ++ right.text ++ " with result " ++ result.text
      ++ " must share an element type"
  | dequantize data dataType out outType =>
    "'" ++ data ++ "' (" ++ dataType.text ++ ") must be quantized and '" ++ out ++ "' (" ++ outType.text
      ++ ") floating point"
  | quantize out => "'" ++ out ++ "' must carry quantization parameters"
  | passThrough data dataType out outType =>
    "data input '" ++ data ++ "' is " ++ dataType.text ++ " but output '" ++
      out ++ "' is " ++ outType.text

/-- The element types that the message names. -/
def mentions : TypeClash → List ElementType
  | int32Operand _ _ found => [found]
  | arithmetic left right result => [left, right, result]
  | dequantize _ dataType _ outType => [dataType, outType]
  | quantize _ => []
  | passThrough _ dataType _ outType => [dataType, outType]

end TypeClash

inductive GraphError where
  /-- No tensor has this number. -/
  | unknownTensor (tensor : TensorId)
  /-- No node has this number. -/
  | unknownNode (node : NodeId)
  /-- Another tensor has this name. -/
  | duplicateTensor (name : String)
  /-- The tensor is claimed by a node, whose name is given unless it has been detached. -/
  | duplicateProducer (tensor : String) (node : NodeId) (name : Option String)
  /-- The operation takes another number of operands. -/
  | inputCount (kind : Primitive) (found : Nat)
  /-- An operation has one result. -/
  | outputCount (kind : Primitive) (found : Nat)
  | typeClash (kind : Primitive) (clash : TypeClash)
  /-- An edge to a node cannot be put back, as nothing produces its tensor. -/
  | unresolvedEdge (tensor : String) (node : String)
  /-- Only some of the nodes can be put in order. -/
  | cycle (visited total : Nat)
deriving DecidableEq

namespace GraphError

def message : GraphError → String
  | unknownTensor tensor => "unknown tensor " ++ tensor.text
  | unknownNode node => "unknown node " ++ node.text
  | duplicateTensor name => "tensor name '" ++ name ++ "' is already in use"
  | duplicateProducer tensor node name =>
    "tensor '" ++ tensor ++ "' is already produced by node '" ++
      name.getD (node.text ++ " (detached)") ++ "'"
  | inputCount kind found =>
    kind.name ++ ": expected " ++ kind.minInputs.repr ++ "..=" ++
      kind.maxInputs.repr ++ " inputs, found "
      ++ found.repr
  | outputCount kind found => kind.name ++ ": expected 1 outputs, found " ++ found.repr
  | typeClash kind clash => kind.name ++ ": " ++ clash.message
  | unresolvedEdge tensor node =>
    "cannot restore edge to '" ++ node ++ "': tensor '" ++ tensor ++ "' has no live producer"
  | cycle visited total =>
    "graph contains a cycle (" ++ visited.repr ++ " of " ++ total.repr ++ " nodes ordered)"

def mentions : GraphError → List ElementType
  | typeClash _ clash => clash.mentions
  | _ => []

end GraphError

def Graph.tensor (g : Graph) (id : TensorId) : Except GraphError Tensor :=
  match g.tensor? id with
  | some tensor => .ok tensor
  | none => .error (.unknownTensor id)

end GraphLowering
