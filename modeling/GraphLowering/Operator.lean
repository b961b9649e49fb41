import GraphLowering.Primitive
import GraphLowering.Tensor

/-!
# Operators and composite nodes

An operator applies a primitive operation to tensors of a graph. A composite is an operation on
channel-first data that the target format does not have: batch normalization, convolution and
transposed convolution. A lowering replaces it by operators.
-/

namespace GraphLowering

structure Operator where
  kind : Primitive
  inputs : List TensorId
  outputs : List TensorId
deriving DecidableEq

/-- The parameters of a convolution, with one entry for each spatial axis. -/
structure ConvParams where
  stride : List Nat
  padding : List Nat
  dilation : List Nat
  outputPadding : List Nat
  groups : Nat
deriving DecidableEq

namespace ConvParams

/-- Whether there can be parameters for so many spatial axes: the sizes of one list, eight bytes
each, take at most `maxBufferSize` bytes. -/
def fits (spatial : Nat) : Bool :=
  8 * spatial ≤ maxBufferSize

def unit (spatial : Nat) : ConvParams where
  stride := List.replicate spatial 1
  padding := List.replicate spatial 0
  dilation := List.replicate spatial 1
  outputPadding := List.replicate spatial 0
  groups := 1

/-- The parameters with a new leading spatial axis of size one. -/
def lifted (p : ConvParams) : ConvParams where
  stride := 1 :: p.stride
  padding := 0 :: p.padding
  dilation := 1 :: p.dilation
  outputPadding := 0 :: p.outputPadding
  groups := p.groups

def hasPadding (p : ConvParams) : Bool :=
  p.padding.any (· ≠ 0)

end ConvParams

/-- Normalization over axis one by fixed statistics. -/
structure BatchNorm where
  input : TensorId
  weight : TensorId
  bias : TensorId
  mean : TensorId
  variance : TensorId
  output : TensorId
  epsilon : Float32
  activation : Activation
deriving DecidableEq

/-- Convolution with a weight of shape `[out, in / groups, spatial…]`. -/
structure Convolution where
  input : TensorId
  weight : TensorId
  bias : Option TensorId
  output : TensorId
  params : ConvParams
  activation : Activation
deriving DecidableEq

/-- Transposed convolution with a weight of shape `[in, out / groups, spatial…]`. -/
structure TransposedConvolution where
  input : TensorId
  weight : TensorId
  bias : Option TensorId
  output : TensorId
  params : ConvParams
deriving DecidableEq

/-- An operation that has to be lowered. -/
inductive Composite where
  | batchNorm (node : BatchNorm)
  | convolution (node : Convolution)
  | transposedConvolution (node : TransposedConvolution)
deriving DecidableEq

namespace Composite

def name : Composite → String
  | batchNorm _ => "BATCH_NORM"
  | convolution _ => "GENERIC_CONV"
  | transposedConvolution _ => "GENERIC_DECONV"

def inputs : Composite → List TensorId
  | batchNorm n => [n.input, n.weight, n.bias, n.mean, n.variance]
  | convolution n => n.input :: n.weight :: n.bias.toList
  | transposedConvolution n => n.input :: n.weight :: n.bias.toList

def output : Composite → TensorId
  | batchNorm n => n.output
  | convolution n => n.output
  | transposedConvolution n => n.output

end Composite

end GraphLowering
