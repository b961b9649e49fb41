import GraphLowering.Buffer
import GraphLowering.Quantization

/-!
# Tensors

A tensor is a named value of the model with an element type and a shape. A tensor with a buffer is a
constant; the value of any other one is known only when the model runs.
-/

namespace GraphLowering

structure TensorId where
  index : Nat
deriving DecidableEq

def TensorId.text (id : TensorId) : String :=
  "t" ++ id.index.repr

structure TensorType where
  elementType : ElementType
  shape : Shape
deriving DecidableEq

structure Tensor where
  name : String
  elementType : ElementType
  shape : Shape
  data : Option Buffer
  quantization : Option Quantization
deriving DecidableEq

namespace Tensor

/-- A constant: the element type and the shape are those of the buffer. -/
def constant (name : String) (data : Buffer) (quantization : Option Quantization) : Tensor :=
  ⟨name, data.elementType, data.shape, some data, quantization⟩

def computed (name : String) (type : TensorType) (quantization : Option Quantization) : Tensor :=
  ⟨name, type.elementType, type.shape, none, quantization⟩

def type (t : Tensor) : TensorType :=
  ⟨t.elementType, t.shape⟩

def rank (t : Tensor) : Nat :=
  t.shape.rank

def isConstant (t : Tensor) : Bool :=
  t.data.isSome

def isQuantized (t : Tensor) : Bool :=
  t.quantization.isSome

end Tensor

end GraphLowering
