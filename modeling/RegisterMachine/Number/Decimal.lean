import RegisterMachine.Number.Double

/-!
# Decimal numerals

The numerals of source text: an optional sign, digits with at most one point among or around them,
and an optional exponent. A numeral denotes the double nearest to its exact value.
-/

namespace RegisterMachine.Number

/-- The number `digits * 10 ^ exponent`. -/
structure Decimal where
  digits : Nat
  exponent : Int
deriving DecidableEq

namespace Decimal

/-- The rank of the double nearest to a decimal. Powers of ten that could only end in zero or
infinity are settled before they are computed: any digit stands for at least one, and `digits` is
below `10 ^ (log2 digits + 1)`. -/
def rank (d : Decimal) : Nat :=
  if d.digits = 0 then 0
  else if 400 < d.exponent then rankOfInfinity
  else if d.exponent + (d.digits.log2 + 1) < -400 then 0
  else rankOfRatio (d.digits * Nat.pow 10 d.exponent.toNat) (Nat.pow 10 (-d.exponent).toNat)

/-- The double nearest to a decimal, with the given sign. -/
def toDouble (negative : Bool) (d : Decimal) : Double := .ofRank negative d.rank

end Decimal

/-- The value of a run of decimal digits. -/
def digitsValue (ds : List Char) : Nat :=
  ds.foldl (fun n c => 10 * n + (c.toNat - '0'.toNat)) 0

/-- Splits an optional sign off, and says whether it was a minus. -/
def splitSign : List Char → Bool × List Char
  | '-' :: cs => (true, cs)
  | '+' :: cs => (false, cs)
  | cs => (false, cs)

/-- Reads what follows the point and digits of a numeral: nothing, or `e`, an optional sign and at
least one digit. -/
def readExponent : List Char → Option Int
  | [] => some 0
  | c :: cs =>
    if c = 'e' ∨ c = 'E' then
      let (negative, ds) := splitSign cs
      if ds ≠ [] ∧ ds.all Char.isDigit then
        some (if negative then -(digitsValue ds : Int) else digitsValue ds)
      else none
    else none

/-- Reads a numeral without its sign: digits on at least one side of an optional point, then an
optional exponent. -/
def readUnsigned (cs : List Char) : Option Decimal :=
  let whole := cs.takeWhile Char.isDigit
  let (fraction, tail) :=
    match cs.dropWhile Char.isDigit with
    | '.' :: rest => (rest.takeWhile Char.isDigit, rest.dropWhile Char.isDigit)
    | rest => ([], rest)
  if whole ++ fraction = [] then none
  else (readExponent tail).map fun e => ⟨digitsValue (whole ++ fraction), e - fraction.length⟩

/-- Reads a numeral as the double it denotes. -/
def readNumeral (cs : List Char) : Option Double :=
  let (negative, rest) := splitSign cs
  (readUnsigned rest).map (Decimal.toDouble negative)

/-- Reads the words for the doubles that no numeral denotes, in any mix of cases. -/
def readWord (cs : List Char) : Option Double :=
  let (negative, rest) := splitSign cs
  let word := String.ofList (rest.map Char.toLower)
  if word = "inf" ∨ word = "infinity" then some (.infinity negative)
  else if word = "nan" then some .nan
  else none

/-- Reads a double: a numeral, or one of the words. -/
def readDouble (cs : List Char) : Option Double := (readNumeral cs).or (readWord cs)

end RegisterMachine.Number
