namespace DenoisePlanner

def powerOfTen (exponent : Nat) : Nat := Nat.pow 10 exponent

-- The exact values that read as one and the same positive finite float: an interval around the
-- float, as numerators over a common denominator. The ends belong to it for an even mantissa.
structure RoundingInterval where
  low : Nat
  value : Nat
  high : Nat
  denominator : Nat
  closed : Bool

namespace RoundingInterval

-- Below a power of two the floats are twice as dense, except at the very bottom.
def ofBits (bits : UInt32) : RoundingInterval :=
  let exponent := (bits.toNat >>> 23) % 256
  let fraction := bits.toNat % 0x800000
  let mantissa := if exponent = 0 then fraction else fraction + 0x800000
  -- In units of a quarter of the last place, which is two to the power `shift - 151`.
  let shift := max exponent 1 - 1
  let low := 4 * mantissa - if fraction = 0 ∧ 1 < exponent then 1 else 2
  { low := low <<< shift
    value := (4 * mantissa) <<< shift
    high := (4 * mantissa + 2) <<< shift
    denominator := 1 <<< 151
    closed := mantissa % 2 = 0 }

-- Whether `numerator / scale` lies in the interval.
def contains (r : RoundingInterval) (numerator scale : Nat) : Bool :=
  let x := numerator * r.denominator
  if r.closed then decide (r.low * scale ≤ x ∧ x ≤ r.high * scale)
  else decide (r.low * scale < x ∧ x < r.high * scale)

-- The number with the given digits and exponent as a fraction.
def fraction (digits : Nat) (exponent : Int) : Nat × Nat :=
  (digits * powerOfTen exponent.toNat, powerOfTen (-exponent).toNat)

-- The point nearest to the value on the grid of the multiples of a power of ten, if one of its
-- two neighbours reads back; of two at the same distance the lower one.
def onGrid? (r : RoundingInterval) (exponent : Int) : Option Nat :=
  let (up, down) := fraction 1 exponent
  let below := r.value * down / (r.denominator * up)
  let reads (digits : Nat) : Bool := r.contains (digits * up) down
  let rest := r.value * down - below * (r.denominator * up)
  let order := if 2 * rest ≤ r.denominator * up then [below, below + 1] else [below + 1, below]
  order.find? reads

-- Grids from coarse to fine; a single-precision float needs no finer one than the last.
def shortest (r : RoundingInterval) : Nat × Int :=
  let grids := (List.range 90).map fun (i : Nat) => (39 : Int) - i
  let hit? (exponent : Int) : Option (Nat × Int) :=
    match r.onGrid? exponent with
    | some 0 | none => none
    | some digits => some (digits, exponent)
  (grids.findSome? hit?).getD (r.value / r.denominator, 0)

end RoundingInterval

-- The digits of a positive number with its point: at least one digit on either side.
def positional (digits : Nat) (exponent : Int) : String :=
  if 0 ≤ exponent then toString (digits * powerOfTen exponent.toNat) ++ ".0"
  else
    let places := (-exponent).toNat
    let whole := digits / powerOfTen places
    let part := toString (digits % powerOfTen places)
    toString whole ++ "." ++ "".pushn '0' (places - part.length) ++ part

-- A finite number by the fewest digits that read back, with the sign in front.
def decimalText (x : Float32) : String :=
  let bits := x.toBits
  let sign := if bits < 0x80000000 then "" else "-"
  let magnitude := bits % 0x80000000
  if magnitude = 0 then sign ++ "0.0"
  else
    let (digits, exponent) := (RoundingInterval.ofBits magnitude).shortest
    sign ++ positional digits exponent

end DenoisePlanner
