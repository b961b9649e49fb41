/-!
# Element types

The element type of a tensor is a kind (boolean, signed, unsigned, floating point) and a width in
bytes. Its text is `bool`, or a letter and the width in bits: `i8`, `u16`, `f32`.

The bit width in that text is an eight-bit number, so a numeric type of 32 bytes or more has no text
(`ElementType.printable`).
-/

namespace GraphLowering

inductive ElementKind where
  | bool
  | signed
  | unsigned
  | float
deriving DecidableEq

namespace ElementKind

def rank : ElementKind → Nat
  | bool => 0
  | signed => 1
  | unsigned => 2
  | float => 3

def name : ElementKind → String
  | bool => "bool"
  | signed => "sint"
  | unsigned => "uint"
  | float => "float"

end ElementKind

structure ElementType where
  kind : ElementKind
  width : UInt8
deriving DecidableEq

namespace ElementType

def bool : ElementType := ⟨.bool, 1⟩
def i8 : ElementType := ⟨.signed, 1⟩
def u8 : ElementType := ⟨.unsigned, 1⟩
def i16 : ElementType := ⟨.signed, 2⟩
def i32 : ElementType := ⟨.signed, 4⟩
def i64 : ElementType := ⟨.signed, 8⟩
def f16 : ElementType := ⟨.float, 2⟩
def f32 : ElementType := ⟨.float, 4⟩

def isFloat (t : ElementType) : Bool :=
  t.kind == .float

def bits (t : ElementType) : Nat :=
  t.width.toNat * 8

/-- Whether the type has a text: the bit width of a numeric type fits in eight bits. -/
def printable (t : ElementType) : Bool :=
  t.kind == .bool || t.bits < 256

/-- The text of a type. It is shown only for `printable` types. -/
def text (t : ElementType) : String :=
  match t.kind with
  | .bool => "bool"
  | .signed => "i" ++ t.bits.repr
  | .unsigned => "u" ++ t.bits.repr
  | .float => "f" ++ t.bits.repr

/-- Types are ordered by kind, then by width. -/
def le (s t : ElementType) : Bool :=
  s.kind.rank < t.kind.rank || (s.kind.rank == t.kind.rank && s.width ≤ t.width)

def sorted (types : List ElementType) : List ElementType :=
  types.mergeSort le

end ElementType

end GraphLowering
