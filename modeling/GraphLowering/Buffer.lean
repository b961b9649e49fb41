import GraphLowering.ElementType
import GraphLowering.Shape
import GraphLowering.Values

/-!
# Constant buffers

The contents of a constant tensor: its elements in row-major order and their shape.
-/

namespace GraphLowering

inductive Elements where
  | f32 (values : Values Float32)
  | i32 (values : Values Int32)
  | i64 (values : Values Int64)
  | i8 (values : Values Int8)
  | u8 (values : Values UInt8)
deriving DecidableEq

namespace Elements

def elementType : Elements → ElementType
  | f32 _ => .f32
  | i32 _ => .i32
  | i64 _ => .i64
  | i8 _ => .i8
  | u8 _ => .u8

def size : Elements → Nat
  | f32 values => values.size
  | i32 values => values.size
  | i64 values => values.size
  | i8 values => values.size
  | u8 values => values.size

def repeatFirst? (n : Nat) : Elements → Option Elements
  | f32 values => values.head?.map fun x => f32 (.uniform n x)
  | i32 values => values.head?.map fun x => i32 (.uniform n x)
  | i64 values => values.head?.map fun x => i64 (.uniform n x)
  | i8 values => values.head?.map fun x => i8 (.uniform n x)
  | u8 values => values.head?.map fun x => u8 (.uniform n x)

end Elements

/-- Elements in row-major order under a shape. -/
structure Buffer where
  shape : Shape
  elements : Elements
deriving DecidableEq

namespace Buffer

def vector (elements : Elements) : Buffer :=
  ⟨⟨[elements.size]⟩, elements⟩

def ofFloats (values : List Float32) : Buffer :=
  vector (.f32 (.listed values))

def ofInt32s (values : List Int32) : Buffer :=
  vector (.i32 (.listed values))

def elementType (b : Buffer) : ElementType :=
  b.elements.elementType

def size (b : Buffer) : Nat :=
  b.elements.size

def isEmpty (b : Buffer) : Bool :=
  b.size == 0

/-- Whether there can be such a buffer: its shape is addressable, and its elements take at most
`maxBufferSize` bytes. -/
def fits (b : Buffer) : Bool :=
  b.shape.addressable && b.elementType.width.toNat * b.size ≤ maxBufferSize

def floats? (b : Buffer) : Option (Values Float32) :=
  match b.elements with
  | .f32 values => some values
  | _ => none

def int32s? (b : Buffer) : Option (Values Int32) :=
  match b.elements with
  | .i32 values => some values
  | _ => none

/-- The same elements under another shape, if the shape has as many elements and a buffer can have
it. -/
def reshaped? (b : Buffer) (shape : Shape) : Option Buffer :=
  if shape.elementCount = b.size ∧ shape.addressable then some { b with shape } else none

theorem eq_of_reshaped? {b r : Buffer} {shape : Shape} (h : b.reshaped? shape = some r) :
    r = ⟨shape, b.elements⟩ := by
  unfold reshaped? at h
  split at h
  · cases h
    rfl
  · cases h

def repeatFirst? (b : Buffer) (n : Nat) : Option Buffer :=
  (b.elements.repeatFirst? n).map vector

end Buffer

end GraphLowering
