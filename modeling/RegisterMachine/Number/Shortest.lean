import RegisterMachine.Number.Decimal

/-!
# The shortest decimal that reads back

A double is written with the fewest significant digits that read back to it, of those the ones
nearest to it, and positionally however large or small it is.
-/

namespace RegisterMachine.Number

/-- How many decimal digits a positive number has. -/
def digitCount (n : Nat) : Nat := (Nat.toDigits 10 n).length

/-- The least `k` with `units * 2 ^ -1074 < 10 ^ k`, for a positive number of units. -/
def decimalScale (units : Nat) : Int :=
  if 1 <<< 1074 ≤ units then digitCount (units >>> 1074)
  else 1 - digitCount (1 <<< 1074 / units)

/-- On the grid of the multiples of `10 ^ e`, the nearer neighbour of a number of units among those
that read back to it. Of two that are equally near the upper one is taken. -/
def nearestOnGrid (units : Nat) (e : Int) : Option Decimal :=
  let num := units * Nat.pow 10 (-e).toNat
  let den := Nat.pow 10 e.toNat <<< 1074
  let lower : Decimal := ⟨num / den, e⟩
  let upper : Decimal := ⟨num / den + 1, e⟩
  let rank := rankOfRatio units (1 <<< 1074)
  match decide (lower.rank = rank), decide (upper.rank = rank) with
  | true, true => some (if 2 * (num % den) < den then lower else upper)
  | true, false => some lower
  | false, true => some upper
  | false, false => none

/-- The shortest decimal that reads back to a positive number of units: the first hit on the grids
of one digit, two digits and so on. Seventeen digits always suffice; the exact value, which stands
behind them, reads back too. -/
def shortest (units : Nat) : Decimal :=
  ((List.range' 1 17).findSome? fun (n : Nat) => nearestOnGrid units (decimalScale units - n)).getD
    ⟨units * Nat.pow 5 1074, -1074⟩

/-- Removes the zeros at the end of the digits. -/
def Decimal.strip (d : Decimal) : Decimal :=
  if h : d.digits ≠ 0 ∧ d.digits % 10 = 0 then strip ⟨d.digits / 10, d.exponent + 1⟩ else d
termination_by d.digits
decreasing_by exact Nat.div_lt_self (Nat.pos_of_ne_zero h.1) (by decide)

/-- A decimal written out in full, without an exponent. -/
def Decimal.positional (d : Decimal) : List Char :=
  let ds := Nat.toDigits 10 d.digits
  if 0 ≤ d.exponent then ds ++ List.replicate d.exponent.toNat '0'
  else
    let places := (-d.exponent).toNat
    if places < ds.length then ds.take (ds.length - places) ++ '.' :: ds.drop (ds.length - places)
    else '0' :: '.' :: List.replicate (places - ds.length) '0' ++ ds

/-- The text of a double. Both zeros are written `0`. -/
def Double.text (x : Double) : String :=
  match x.meaning with
  | .nan => "NaN"
  | .infinite negative => if negative then "-inf" else "inf"
  | .finite negative units =>
    if units = 0 then "0"
    else
      let digits := (shortest units).strip.positional
      String.ofList (if negative then '-' :: digits else digits)

end RegisterMachine.Number
