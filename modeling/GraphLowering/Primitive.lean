import GraphLowering.Listing

/-!
# Primitive operations

The closed set of operations of the target format, each with its attributes. Convolutions work on
channel-last data.
-/

namespace GraphLowering

inductive Padding where
  | same
  | valid
deriving DecidableEq

def Padding.text : Padding → String
  | same => "SAME"
  | valid => "VALID"

inductive Activation where
  | none
  | relu
  | reluN1To1
  | relu6
  | tanh
deriving DecidableEq

namespace Activation

def text : Activation → String
  | .none => "NONE"
  | relu => "RELU"
  | reluN1To1 => "RELU_N1_TO_1"
  | relu6 => "RELU6"
  | tanh => "TANH"

def suffix : Activation → String
  | .none => ""
  | a => " activation=" ++ a.text

end Activation

structure PerAxis where
  height : Nat
  width : Nat
deriving DecidableEq

def PerAxis.text (p : PerAxis) : String :=
  "(" ++ p.height.repr ++ ", " ++ p.width.repr ++ ")"

structure Window where
  padding : Padding
  stride : PerAxis
deriving DecidableEq

def Window.text (w : Window) : String :=
  " padding=" ++ w.padding.text ++ " stride=" ++ w.stride.text

/-- An operation of the target format. -/
inductive Primitive where
  /-- Operands: data, permutation. -/
  | transpose
  /-- Operands: data, paddings before and after each axis. -/
  | pad
  /-- Operands: data, begin, size. -/
  | slice
  /-- Operands: data and, optionally, the new shape. -/
  | reshape (newShape : List Int32)
  | mul (activation : Activation)
  | add (activation : Activation)
  | dequantize
  | quantize
  /-- Operands: data, filter with the output channel first, and optionally a bias. -/
  | conv2d (window : Window) (dilation : PerAxis) (activation : Activation)
  /-- Operands: data, filter with the output channel last, and optionally a bias. -/
  | depthwiseConv2d (window : Window) (dilation : PerAxis) (depthMultiplier : Nat)
    (activation : Activation)
  /-- Operands: output shape, filter with the output channel first, data, and optionally a bias. -/
  | transposeConv (window : Window)
deriving DecidableEq

namespace Primitive

def code : Primitive → Nat
  | add _ => 0
  | conv2d .. => 3
  | depthwiseConv2d .. => 4
  | dequantize => 6
  | mul _ => 18
  | reshape _ => 22
  | pad => 34
  | transpose => 39
  | slice => 65
  | transposeConv _ => 67
  | quantize => 114

def name : Primitive → String
  | transpose => "TRANSPOSE"
  | pad => "PAD"
  | slice => "SLICE"
  | reshape _ => "RESHAPE"
  | mul _ => "MUL"
  | add _ => "ADD"
  | dequantize => "DEQUANTIZE"
  | quantize => "QUANTIZE"
  | conv2d .. => "CONV_2D"
  | depthwiseConv2d .. => "DEPTHWISE_CONV_2D"
  | transposeConv _ => "TRANSPOSE_CONV"

def attributes : Primitive → String
  | reshape newShape => " new_shape=" ++ bracketedInts (newShape.map Int32.toInt)
  | mul activation => activation.suffix
  | add activation => activation.suffix
  | conv2d window dilation activation =>
    window.text ++ " dilation=" ++ dilation.text ++ activation.suffix
  | depthwiseConv2d window dilation depthMultiplier activation =>
    window.text ++ " dilation=" ++ dilation.text ++ " depth_multiplier=" ++ depthMultiplier.repr
      ++ activation.suffix
  | transposeConv window => window.text
  | transpose | pad | slice | dequantize | quantize => ""

def text (p : Primitive) : String :=
  p.name ++ p.attributes

def minInputs : Primitive → Nat
  | reshape _ | dequantize | quantize => 1
  | transpose | pad | mul _ | add _ | conv2d .. | depthwiseConv2d .. => 2
  | slice | transposeConv _ => 3

def maxInputs : Primitive → Nat
  | dequantize | quantize => 1
  | transpose | pad | mul _ | add _ | reshape _ => 2
  | slice | conv2d .. | depthwiseConv2d .. => 3
  | transposeConv _ => 4

/-- The operands that hold 32-bit integers such as a permutation or a shape. -/
def int32Slots : Primitive → List Nat
  | transpose | pad | reshape _ => [1]
  | slice => [1, 2]
  | transposeConv _ => [0]
  | mul _ | add _ | dequantize | quantize | conv2d .. | depthwiseConv2d .. => []

def dataSlot : Primitive → Nat
  | transposeConv _ => 2
  | _ => 0

end Primitive

end GraphLowering
