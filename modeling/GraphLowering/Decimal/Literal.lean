/-!
# Reading floating-point numbers

A literal is an optional sign and then a word (`inf`, `infinity`, `nan`, in any case) or a decimal:
digits with an optional point, at least one digit, and an optional exponent.
-/

namespace GraphLowering

namespace Decimal

def ofDigits (digits : List Char) : Nat :=
  digits.foldl (fun n c => 10 * n + (c.toNat - '0'.toNat)) 0

def splitSign : List Char → Bool × List Char
  | '-' :: rest => (true, rest)
  | '+' :: rest => (false, rest)
  | rest => (false, rest)

def exponent? : List Char → Option Int
  | [] => some 0
  | mark :: rest =>
    if mark = 'e' ∨ mark = 'E' then
      let (negative, digits) := splitSign rest
      if digits.isEmpty ∨ ¬ digits.all Char.isDigit then none
      else if negative then some (-(ofDigits digits : Int))
      else some (ofDigits digits)
    else
      none

/-- The 32-bit number nearest to `digits * 10 ^ exponent`, for `count` digits. Numbers beyond the
range of exponents are infinite or zero. -/
def nearestFloat32 (digits count : Nat) (exponent : Int) : Float32 :=
  if digits = 0 then 0
  else if 40 < count + exponent then Float32.ofBits 0x7f800000
  else if count + exponent < -60 then 0
  else Float32.ofScientific digits (exponent < 0) exponent.natAbs

def unsignedFloat32? (text : List Char) : Option Float32 :=
  let whole := text.takeWhile Char.isDigit
  let afterWhole := text.dropWhile Char.isDigit
  let (fraction, afterFraction) :=
    match afterWhole with
    | '.' :: rest => (rest.takeWhile Char.isDigit, rest.dropWhile Char.isDigit)
    | rest => ([], rest)
  if whole.isEmpty ∧ fraction.isEmpty then
    none
  else
    (exponent? afterFraction).map fun e =>
      nearestFloat32 (ofDigits (whole ++ fraction)) (whole.length + fraction.length)
        (e - fraction.length)

def readFloat32? (text : String) : Option Float32 :=
  let (negative, rest) := splitSign text.toList
  let word := String.ofList (rest.map Char.toLower)
  let magnitude :=
    if word = "inf" ∨ word = "infinity" then some (Float32.ofBits 0x7f800000)
    else if word = "nan" then some (Float32.ofBits 0x7fc00000)
    else unsignedFloat32? rest
  magnitude.map fun x => if negative then -x else x

end Decimal

end GraphLowering
