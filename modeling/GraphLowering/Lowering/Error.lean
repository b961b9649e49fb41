import GraphLowering.Graph.Error

/-!
# What a lowering refuses

A lowering refuses a node that is malformed or that the target format cannot express. It can also
find that the operators it put in do not hang together, and it passes on what the graph refuses.
-/

namespace GraphLowering

inductive Objection where
  /-- The node is no composite. -/
  | notComposite (node : NodeId) (name : String)
  /-- The input of a normalization has no channel axis. -/
  | noChannelAxis (tensor : String) (shape : Shape)
  | notConstant (tensor : String)
  | notFloat (tensor : String) (found : ElementType)
  /-- A parameter of a normalization has not one element for each channel. -/
  | channelValues (tensor : String) (found channels : Nat)
  /-- An input without quantization parameters has to be a 32-bit floating-point tensor. -/
  | unquantizedInput (tensor : String) (found : ElementType)
  /-- A quantized input needs a quantized output. -/
  | unquantizedOutput (tensor : String)
  /-- The folded parameters cannot be laid along the channel axis. -/
  | channelCount
  | noGroups
  /-- The convolution is neither one-dimensional nor two-dimensional. -/
  | unsupportedRanks (input weight : Nat)
  | differentRanks (input weight output : Nat)
  /-- A parameter list has not one entry for each spatial axis. -/
  | entryCount (parameter : String) (found spatial : Nat)
  /-- A parameter list has an entry zero. -/
  | zeroEntry (parameter : String) (entries : List Nat)
  /-- A size of the shape is no 32-bit operand. -/
  | shapeRange (shape : Shape)
  | int32Range (parameter : String) (value : Nat)
  | uint32Range (parameter : String) (value : Nat)
  /-- The buffer of a tensor has not the shape of the tensor. -/
  | bufferShape (tensor : String)
  | inputChannels (found groupWidth groups : Nat)
  /-- A convolution in groups that is not depthwise, where such are denied. -/
  | groupedConvolution (owner : String) (groups : Nat)
  | paddingRange (padding size : Nat)
  /-- The bias has neither one element nor one for each output channel. -/
  | biasLength (tensor : String) (found channels : Nat)
  /-- A bias of one element is repeated, so it has to be known. -/
  | biasNotConstant (tensor : String)
  | groupedTransposed (groups : Nat)
  | dilatedTransposed (dilation : List Nat)
  | transposedChannels (found expected : Nat)
  /-- The bias has another element type than the output. -/
  | biasType (tensor : String) (found output : ElementType)
  /-- The first operator of a chain has no such operand. -/
  | noChainInput (slot : Nat)
  /-- The last operator of a chain has no such result. -/
  | noChainOutput (slot : Nat)
  /-- The tensor is no image with the channels first. -/
  | notChannelFirst (tensor : String) (shape : Shape)
  | wrongPermutation (perm : List Nat) (tensor : String) (shape : Shape)
deriving DecidableEq

namespace Objection

def message : Objection → String
  | notComposite node name => "node " ++ node.text ++ " ('" ++ name ++ "') is not transformable"
  | noChannelAxis tensor shape =>
    "input '" ++ tensor ++ "' needs a channel axis, has shape " ++ shape.text
  | notConstant tensor => "'" ++ tensor ++ "' must be a constant"
  | notFloat tensor found => "'" ++ tensor ++ "' must be f32, found " ++ found.text
  | channelValues tensor found channels =>
    "'" ++ tensor ++ "' has " ++ found.repr ++ " elements for " ++ channels.repr ++ " channels"
  | unquantizedInput tensor found =>
    "unquantized input '" ++ tensor ++ "' must be f32, found " ++ found.text
  | unquantizedOutput tensor => "output '" ++ tensor ++ "' of a quantized input must be quantized"
  | channelCount => "channel count does not match"
  | noGroups => "group count must be at least 1"
  | unsupportedRanks input weight =>
    "only 1-D/2-D convolution is supported, got input rank " ++ input.repr ++ " and weight rank "
      ++ weight.repr
  | differentRanks input weight output =>
    "input, weight and output ranks differ (" ++ input.repr ++
      ", " ++ weight.repr ++ ", " ++ output.repr
      ++ ")"
  | entryCount parameter found spatial =>
    parameter ++ " has " ++ found.repr ++ " entries for " ++ spatial.repr ++ " spatial axes"
  | zeroEntry parameter entries =>
    parameter ++ " " ++ bracketedNats entries ++ " must be at least 1 on every axis"
  | shapeRange shape => "shape " ++ shape.text ++ " does not fit in i32"
  | int32Range parameter value => parameter ++ " " ++ value.repr ++ " does not fit in i32"
  | uint32Range parameter value => parameter ++ " " ++ value.repr ++ " does not fit in u32"
  | bufferShape tensor => "buffer of '" ++ tensor ++ "' does not match its shape"
  | inputChannels found groupWidth groups =>
    "input has " ++ found.repr ++ " channels but weight expects " ++
      groupWidth.repr ++ " per group over "
      ++ groups.repr ++ " groups"
  | groupedConvolution owner groups =>
    "'" ++ owner ++ "': grouped convolution (" ++ groups.repr
      ++ " groups) is not supported by every TFLite runtime"
  | paddingRange padding size =>
    "padding " ++ padding.repr ++ " overflows a dimension of " ++ size.repr
  | biasLength tensor found channels =>
    "bias '" ++ tensor ++ "' has " ++ found.repr ++ " elements, expected 1 or " ++ channels.repr
  | biasNotConstant tensor => "single-element bias '" ++ tensor ++ "' must be constant to broadcast"
  | groupedTransposed groups =>
    "grouped transposed convolution (" ++ groups.repr ++ " groups) is not supported"
  | dilatedTransposed dilation =>
    "dilated transposed convolution " ++ bracketedNats dilation ++ " is not supported"
  | transposedChannels found expected =>
    "input has " ++ found.repr ++ " channels but weight expects " ++ expected.repr
  | biasType tensor found output =>
    "bias '" ++ tensor ++ "' is " ++ found.text ++ " but the output is " ++ output.text
  | noChainInput slot => "chain has no input " ++ slot.repr
  | noChainOutput slot => "chain has no output " ++ slot.repr
  | notChannelFirst tensor shape =>
    "expected a 4-D channel-first tensor, '" ++ tensor ++ "' has shape " ++ shape.text
  | wrongPermutation perm tensor shape =>
    "permutation " ++ bracketedNats perm ++ " does not fit '" ++ tensor ++ "' of shape " ++ shape.text

def mentions : Objection → List ElementType
  | notFloat _ found => [found]
  | unquantizedInput _ found => [found]
  | biasType _ found output => [found, output]
  | _ => []

end Objection

inductive Inconsistency where
  | noProducer
  | noConsumer
  | feedsConstant
deriving DecidableEq

def Inconsistency.message : Inconsistency → String
  | noProducer => "no node produces this intermediate"
  | noConsumer => "intermediate has no consumer"
  | feedsConstant => "intermediate feeds a constant node"

inductive LowerError where
  /-- The node is malformed or not supported; `lowering` names the lowering that says so. -/
  | precondition (lowering : String) (objection : Objection)
  /-- The operators that were put in do not hang together at a tensor. -/
  | inconsistent (tensor : String) (found : Inconsistency)
  /-- The graph refuses. -/
  | graph (error : GraphError)
deriving DecidableEq

namespace LowerError

def message : LowerError → String
  | precondition lowering objection => lowering ++ ": " ++ objection.message
  | inconsistent tensor found =>
    "internal consistency fault at '" ++ tensor ++ "': " ++ found.message
  | graph error => error.message

def mentions : LowerError → List ElementType
  | precondition _ objection => objection.mentions
  | inconsistent .. => []
  | graph error => error.mentions

/-- Whether the error has a text: every element type that its message names has one. -/
def printable (e : LowerError) : Bool :=
  e.mentions.all ElementType.printable

end LowerError

end GraphLowering
