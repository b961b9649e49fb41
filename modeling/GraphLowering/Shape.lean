import GraphLowering.Listing
import GraphLowering.Permutation

/-!
# Shapes

A shape is the list of the sizes of a tensor's axes. Sizes are 64-bit numbers: the element count
stops at the largest of them instead of running over.
-/

namespace GraphLowering

/-- The largest size, `2 ^ 64 - 1`. -/
def maxSize : Nat := 18446744073709551615

/-- The most elements and the most bytes that a buffer can have, `2 ^ 63 - 1`. -/
def maxBufferSize : Nat := 9223372036854775807

def maxInt32 : Nat := 2147483647

def maxUInt32 : Nat := 4294967295

def toInt32? (n : Nat) : Option Int32 :=
  if n ≤ maxInt32 then some (Int32.ofNat n) else none

structure Shape where
  dims : List Nat
deriving DecidableEq

namespace Shape

def rank (s : Shape) : Nat :=
  s.dims.length

/-- The number of elements, at most `maxSize`. A shape without axes has one element. -/
def elementCount (s : Shape) : Nat :=
  s.dims.foldl (fun n d => min (n * d) maxSize) 1

def dim? (s : Shape) (axis : Nat) : Option Nat :=
  s.dims[axis]?

/-- The shape whose axis `i` is the axis `perm[i]` of `s`, if `perm` is a permutation of the axes of
`s`. -/
def permuted? (s : Shape) (perm : List Nat) : Option Shape :=
  if isPermutation perm s.rank then
    some ⟨perm.map fun p => s.dims.getD p 0⟩
  else
    none

/-- The shape with a new axis of size one before `axis`, or at the end if there are fewer axes. -/
def insertAxis (s : Shape) (axis : Nat) : Shape :=
  ⟨s.dims.insertIdx (min axis s.rank) 1⟩

def toInt32s? (s : Shape) : Option (List Int32) :=
  s.dims.mapM toInt32?

/-- Whether a buffer can have this shape: the product of the sizes that are not zero is at most
`maxBufferSize`. -/
def addressable (s : Shape) : Bool :=
  (s.dims.filter (· ≠ 0)).foldl (· * ·) 1 ≤ maxBufferSize

def text (s : Shape) : String :=
  bracketedNats s.dims

end Shape

end GraphLowering
