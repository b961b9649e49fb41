/-!
# Shortest decimal text of a floating-point number

A finite floating-point number stands for all reals that round to it. `Decimal.shortest` finds the
decimal with the fewest digits in that interval, and among those the one nearest to the number.
Since a coarser decimal grid means fewer digits, it goes from coarse grids to fine ones and stops at
the first with a point in the interval; only the two neighbours of the number on a grid have to be
looked at.

`Decimal.float32Text` writes a 32-bit number by these digits: positionally and with at least one
fractional digit from `0.0001` up to, but not including, `1e16`; with an exponent outside.
-/

namespace GraphLowering

/-- The number `significand * 2 ^ exponent`. The next number above is one unit of the last place
away, and so is the next number below, unless `closeBelow` holds: then it is half a unit away. -/
structure Binary where
  significand : Nat
  exponent : Int
  closeBelow : Bool

def Binary.fractionCount : Nat := 8388608

/-- A finite positive 32-bit number from the exponent and fraction fields of its encoding. -/
def Binary.ofFields (exponent fraction : Nat) : Binary :=
  if exponent = 0 then ⟨fraction, -149, false⟩
  else ⟨fractionCount + fraction, exponent - 150, fraction == 0 && exponent ≠ 1⟩

structure Decimal where
  digits : Nat
  exponent : Int
deriving DecidableEq

namespace Decimal

/-- The coefficient `d` of a point `d * 10 ^ k` that rounds to `b`, if there is one: of two
neighbours of `b` the nearer, and the upper one if both are equally near. Everything is measured in
quarters of a unit of the last place, so that the ends of the interval are whole numbers; they
belong to it if the significand is even. -/
def onGrid? (b : Binary) (k : Int) : Option Nat :=
  let step := Nat.pow 10 k.toNat * Nat.pow 2 (2 - b.exponent).toNat
  let quarter := Nat.pow 10 (-k).toNat * Nat.pow 2 (b.exponent - 2).toNat
  let value := 4 * b.significand * quarter
  let low := (4 * b.significand - if b.closeBelow then 1 else 2) * quarter
  let high := (4 * b.significand + 2) * quarter
  let rounds (d : Nat) : Bool :=
    if b.significand % 2 == 0 then low ≤ d * step && d * step ≤ high
    else low < d * step && d * step < high
  let below := value / step
  match rounds below, rounds (below + 1) with
  | false, false => none
  | true, false => some below
  | false, true => some (below + 1)
  | true, true => if 2 * (value - below * step) < step then some below else some (below + 1)

/-- The first hit among the grids `10 ^ k`, `10 ^ (k - 1)`, …; after `fuel` grids, the number zero. -/
def shortestFrom (b : Binary) : Nat → Int → Decimal
  | 0, _ => ⟨0, 0⟩
  | fuel + 1, k =>
    match onGrid? b k with
    | some d => ⟨d, k⟩
    | none => shortestFrom b fuel (k - 1)

/-- The decimal with the fewest digits that rounds to `b`. The first grid is coarser than `b`
itself, and on the last one `b` is a point. -/
def shortest (b : Binary) : Decimal :=
  let bits := (b.significand.log2 + 1 + b.exponent).toNat
  shortestFrom b (bits + (-b.exponent).toNat + 2) (bits + 1)

/-- The exponents of the leading digit that are written positionally. -/
def positional (e : Int) : Bool :=
  -4 ≤ e && e < 16

def text (d : Decimal) : String :=
  let digits := Nat.toDigits 10 d.digits
  let lead := d.exponent + digits.length - 1
  let zeros (n : Int) : List Char := List.replicate n.toNat '0'
  if positional lead then
    if 0 ≤ d.exponent then
      String.ofList (digits ++ zeros d.exponent ++ ['.', '0'])
    else if 0 ≤ lead then
      String.ofList (digits.take (lead + 1).toNat ++ '.' :: digits.drop (lead + 1).toNat)
    else
      String.ofList ('0' :: '.' :: zeros (-lead - 1) ++ digits)
  else
    let fraction := if digits.length ≤ 1 then [] else '.' :: digits.drop 1
    String.ofList (digits.take 1 ++ fraction) ++ "e" ++ lead.repr

def float32Text (x : Float32) : String :=
  let bits := x.toBits.toNat
  let exponent := bits / Binary.fractionCount % 256
  let fraction := bits % Binary.fractionCount
  let sign := if bits / Binary.fractionCount < 256 then "" else "-"
  if exponent = 255 then
    if fraction = 0 then sign ++ "inf" else "NaN"
  else if exponent = 0 ∧ fraction = 0 then
    sign ++ "0.0"
  else
    sign ++ (shortest (Binary.ofFields exponent fraction)).text

end Decimal

end GraphLowering
