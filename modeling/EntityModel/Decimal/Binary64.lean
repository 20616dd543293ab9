/-!
# Decimal numbers and doubles

A double is `mantissa * 2 ^ exponent`, with a mantissa below `2 ^ 53`.  Reading a decimal gives the
nearest double, a tie going to the even mantissa.  Writing a double gives the fewest digits that
read back, and of those the nearest.
-/

namespace EntityModel.Decimal

/-- The ratio rounded to the nearest whole number, a tie to the even one. -/
def roundRatio (num den : Nat) : Nat :=
  let q := num / den
  let r := num % den
  if 2 * r < den || (2 * r == den && q % 2 == 0) then q else q + 1

/-- `num / den` divided by a power of a base, as a ratio. -/
def scaleDown (base num den : Nat) (power : Int) : Nat × Nat :=
  if power ≥ 0 then (num, den * base.pow power.toNat) else (num * base.pow (-power).toNat, den)

structure Binary64 where
  mantissa : Nat
  exponent : Int
deriving Repr, DecidableEq

namespace Binary64

def leastExponent : Int := -1074

def greatestExponent : Int := 971

/-- The nearest double of a positive ratio; none if that is beyond all doubles. -/
def ofRatio (num den : Nat) : Option Binary64 :=
  let magnitude : Int := (Nat.log2 num : Int) - Nat.log2 den
  let rounded (exponent : Int) : Nat :=
    let (n, d) := scaleDown 2 num den exponent
    roundRatio n d
  let start := max (magnitude - 53) leastExponent
  let exponent := ([start, start + 1, start + 2].find? fun e => rounded e < Nat.pow 2 53).getD start
  if exponent > greatestExponent then none else some ⟨rounded exponent, exponent⟩

/-- The exact value as a ratio. -/
def ratio (b : Binary64) : Nat × Nat :=
  if b.exponent ≥ 0 then (b.mantissa * Nat.pow 2 b.exponent.toNat, 1)
  else (b.mantissa, Nat.pow 2 (-b.exponent).toNat)

/-- Decimal digits and a power of ten. -/
def ofDecimal (digits : Nat) (power : Int) : Option Binary64 :=
  if digits == 0 then some ⟨0, 0⟩
  else
    let size := (Nat.toDigits 10 digits).length + power
    if size > 400 then none
    else if size < -400 then some ⟨0, 0⟩
    else
      let (num, den) := scaleDown 10 digits 1 (-power)
      ofRatio num den

/-- How many digits a ratio has before the point, or minus how many zeros after it. -/
def decimalMagnitude (num den : Nat) : Int :=
  let guess : Int := (Nat.toDigits 10 num).length - (Nat.toDigits 10 den).length
  let (n, d) := scaleDown 10 num den guess
  if n ≥ d then guess + 1 else guess

/-- The fewest digits that read back, with their power of ten. -/
def shortest (b : Binary64) : Nat × Int :=
  let (num, den) := b.ratio
  let magnitude := decimalMagnitude num den
  let candidate (count : Nat) : Option (Nat × Int) :=
    let power := magnitude - count
    let (n, d) := scaleDown 10 num den power
    let low := n / d
    let near := if 2 * (n % d) ≤ d then [low, low + 1] else [low + 1, low]
    (near.find? fun digits => ofDecimal digits power == some b).map fun digits => (digits, power)
  (((List.range 17).map (· + 1)).findSome? candidate).getD (0, 0)

/-- Positional text, with a point and at least one digit on both sides of it. -/
def text (b : Binary64) : String :=
  if b.mantissa == 0 then "0.0"
  else
    let (digits, power) := b.shortest
    let ds := Nat.toDigits 10 digits
    if power ≥ 0 then String.ofList (ds ++ List.replicate power.toNat '0') ++ ".0"
    else
      let places := (-power).toNat
      let ds := List.replicate (places + 1 - ds.length) '0' ++ ds
      let cut := ds.length - places
      String.ofList (ds.take cut) ++ "." ++ String.ofList (ds.drop cut)

end Binary64

end EntityModel.Decimal
