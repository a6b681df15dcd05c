/-!
# Doubles as exact numbers

A double is its 64 bits. Many patterns of bits are no number, and they are kept apart: a double that
is only carried from one place to another arrives as it was.

A finite double is a whole multiple of the least positive one, `2 ^ -1074`. Here a double is taken
apart into that multiple (its *units*) and a sign, and a quotient of naturals is rounded to the
nearest double. Everything in between is exact arithmetic on naturals, so reading, writing and
remainders need no rounding argument of their own: they compute exactly and round once.

The bits without the sign, read as a number, count the doubles from zero upwards. That count is the
double's *rank*. The finite ranks stop below `rankOfInfinity`; the ranks behind it are no numbers.
With its sign a rank is the double's place in the order of all doubles, in which both zeros are at
place zero.
-/

namespace RegisterMachine.Number

/-- The rank of positive infinity: eleven exponent bits set and no fraction. -/
def rankOfInfinity : Nat := 2047 <<< 52

/-- How many times `2 ^ -1074` the double of a finite rank is. -/
def unitsOfRank (rank : Nat) : Nat :=
  let exponent := rank >>> 52
  let fraction := rank % 1 <<< 52
  if exponent = 0 then fraction else (1 <<< 52 + fraction) <<< (exponent - 1)

/-- The whole number nearest to `num / den`; of two equally near ones, the even one. -/
def roundDiv (num den : Nat) : Nat :=
  let q := num / den
  let r := num % den
  if 2 * r < den then q else if den < 2 * r then q + 1 else q + q % 2

/-- The rank of the double nearest to `num / den`; a tie goes to the even significand, and a
quotient beyond the finite doubles to infinity.

With `n / den` the quotient in units, the doubles around it are `2 ^ shift` units apart. The
significand is rounded on that grid, and one that rounds up to the next power of two carries into
the exponent by the addition itself. -/
def rankOfRatio (num den : Nat) : Nat :=
  let n := num <<< 1074
  let shift := (n / den).log2 - 52
  min (shift <<< 52 + roundDiv n (den <<< shift)) rankOfInfinity

/-- A floating-point number of 64 bits. -/
structure Double where
  bits : UInt64
deriving DecidableEq

/-- What a double denotes. -/
inductive Meaning where
  | nan
  | infinite (negative : Bool)
  /-- The number of this many units with this sign; both zeros have no units. -/
  | finite (negative : Bool) (units : Nat)
deriving DecidableEq

namespace Double

/-! ## Taking doubles apart -/

/-- Whether the sign is a minus; a zero can have one too. -/
def negative (x : Double) : Bool := 1 <<< 63 ≤ x.bits.toNat

/-- The bits without the sign. -/
def rank (x : Double) : Nat := x.bits.toNat % 1 <<< 63

def meaning (x : Double) : Meaning :=
  if x.rank < rankOfInfinity then .finite x.negative (unitsOfRank x.rank)
  else if x.rank = rankOfInfinity then .infinite x.negative
  else .nan

/-- Whether a double is no number. -/
def isNaN (x : Double) : Bool := rankOfInfinity < x.rank

/-- Whether a double is one of the two zeros. -/
def isZero (x : Double) : Bool := x.rank = 0

/-- The place of a double in the order of all doubles, unless it is no number. -/
def place? (x : Double) : Option Int :=
  if x.isNaN then none else some (if x.negative then -x.rank else x.rank)

/-- The order of two doubles, if both are numbers. -/
def compare? (x y : Double) : Option Ordering :=
  match x.place?, y.place? with
  | some a, some b => some (compare a b)
  | _, _ => none

/-- Whether two doubles are the same number. -/
def same (x y : Double) : Bool := x.compare? y = some .eq

/-! ## Making doubles -/

/-- The double with the given sign and rank. -/
def ofRank (negative : Bool) (rank : Nat) : Double :=
  ⟨UInt64.ofNat ((if negative then 1 <<< 63 else 0) + rank)⟩

/-- The double nearest to `num / den` in size, with the given sign. -/
def ofRatio (negative : Bool) (num den : Nat) : Double := ofRank negative (rankOfRatio num den)

/-- The double nearest to a whole number. -/
def ofInt (n : Int) : Double := ofRatio (n < 0) n.natAbs 1

def infinity (negative : Bool) : Double := ofRank negative rankOfInfinity

/-- A double that is no number, the one that is meant where none in particular is. -/
def nan : Double := ⟨0x7FF8000000000000⟩

/-! ## Arithmetic

The four operations are those of the floating-point unit, which rounds to the nearest double. -/

/-- Applies an operation of the floating-point unit. -/
def lift (f : Float → Float → Float) (x y : Double) : Double :=
  ⟨(f (.ofBits x.bits) (.ofBits y.bits)).toBits⟩

instance : Add Double := ⟨lift (· + ·)⟩
instance : Sub Double := ⟨lift (· - ·)⟩
instance : Mul Double := ⟨lift (· * ·)⟩
instance : Div Double := ⟨lift (· / ·)⟩

/-- The other sign. -/
instance : Neg Double := ⟨fun x => ofRank (!x.negative) x.rank⟩

/-- The remainder of truncated division: it has the sign of the dividend and is smaller in size than
the divisor. Of two multiples of the unit it is a multiple of the unit, so no rounding happens. -/
def rem (x y : Double) : Double :=
  match x.meaning, y.meaning with
  | .nan, _ => nan
  | _, .nan => nan
  | .infinite _, _ => nan
  | .finite .., .infinite _ => x
  | .finite negative a, .finite _ b =>
    if b = 0 then nan else ofRatio negative (a % b) (1 <<< 1074)

instance : Mod Double := ⟨rem⟩

end Double

end RegisterMachine.Number
