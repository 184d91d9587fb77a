/-!
# Range of JSON numbers

A number that is no integer of 64 bits is read as a double: its leading digits
as a whole number below 2^64, scaled by a power of ten. `overflows` says when
that scaling leaves the finite doubles; it is exact arithmetic on naturals.
-/

set_option autoImplicit false

namespace ClrNames.Json

/-- The nearest double to a natural number, ties to even, as a natural number;
above the largest double the range is taken to go on. -/
def nearestDouble (n : Nat) : Nat :=
  let excess := n.log2 + 1 - 53
  let unit := 1 <<< excess
  let low := n / unit
  if 2 * (n % unit) < unit then low * unit
  else if 2 * (n % unit) = unit then (low + low % 2) * unit
  else (low + 1) * unit

/-- The least real that rounds to infinity. -/
def doubleLimit : Nat := (1 <<< 1024) - (1 <<< 970)

def maxPowerOfTen : Nat := 308

def overflows (significand : Nat) (exponent : Int) : Bool :=
  if significand = 0 || exponent < 0 then false
  else if maxPowerOfTen < exponent.toNat then true
  else doubleLimit ≤ nearestDouble significand * nearestDouble (Nat.pow 10 exponent.toNat)

def appendDigits (significand : Nat) : List Nat → Nat × Nat
  | [] => (significand, 0)
  | d :: ds =>
    if significand * 10 + d < 18446744073709551616 then
      let rest := appendDigits (significand * 10 + d) ds
      (rest.1, rest.2 + 1)
    else (significand, 0)

end ClrNames.Json
