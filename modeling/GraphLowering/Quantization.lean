import GraphLowering.Decimal.Shortest
import GraphLowering.Shape

/-!
# Quantization parameters

A quantized tensor stores `q` for the real value `scale * (q - zeroPoint)`. There is one pair of
parameters for the whole tensor, or one for each slice along an axis. The parameters follow the
data: when axes are permuted or inserted, the quantized axis moves with them.
-/

namespace GraphLowering

/-- Affine quantization parameters, along `axis` if there is one. -/
structure Quantization where
  scales : List Float32
  zeroPoints : List Int64
  axis : Option Nat
deriving DecidableEq

namespace Quantization

def perTensor (scale : Float32) (zeroPoint : Int64) : Quantization :=
  ⟨[scale], [zeroPoint], none⟩

def perAxis (scales : List Float32) (zeroPoints : List Int64) (axis : Nat) : Quantization :=
  ⟨scales, zeroPoints, some axis⟩

def isPerAxis (q : Quantization) : Bool :=
  q.axis.isSome

/-- The parameters of the data after its axes are permuted: the quantized axis goes where `perm`
puts it. An axis that `perm` does not name stays. -/
def permuted (q : Quantization) (perm : List Nat) : Quantization :=
  { q with axis := q.axis.map fun a => (perm.idxOf? a).getD a }

/-- The parameters of the data after a unit axis is inserted before `axis`, or `none` if the number
of the quantized axis would leave the range of sizes. -/
def insertAxis? (q : Quantization) (axis : Nat) : Option Quantization :=
  match q.axis with
  | none => some q
  | some a =>
    if a < axis then some q
    else if a < maxSize then some { q with axis := some (a + 1) }
    else none

def text (q : Quantization) : String :=
  "scale=" ++ bracketed (q.scales.map Decimal.float32Text)
    ++ " zero_point=" ++ bracketedInts (q.zeroPoints.map Int64.toInt)
    ++ match q.axis with
      | none => ""
      | some a => " axis=" ++ a.repr

end Quantization

end GraphLowering
