import RegisterMachine.Number.Double

/-!
# Values

What a register or the stack holds: a number, a truth value, a symbol, a position in the running
program (a return address), or nothing yet. Operations on values are partial where the kinds do not
fit and answer `none` there; the errors of a running program are made from that elsewhere.

Two equalities live side by side. Propositional equality compares numbers by their bits: it tells
`0` from `-0` and takes a double that is no number as equal to itself. `Value.same` is what a
program sees with `=`: there the two zeros are the same and a double that is no number is not the
same as anything.
-/

namespace RegisterMachine

inductive Value where
  | unassigned
  | number (n : Number.Double)
  | bool (b : Bool)
  | symbol (s : String)
  /-- The instructions of the program from the `k`-th on; the program's length is the empty rest. -/
  | position (k : Nat)
deriving DecidableEq, Inhabited

namespace Value

/-- What a branch takes for true: everything but `false`, zero, a double that is no number, the
empty symbol and an unassigned register. -/
def isTrue : Value → Bool
  | unassigned => false
  | bool b => b
  | number n => !n.isZero && !n.isNaN
  | symbol s => s ≠ ""
  | position _ => true

/-- The name of a value's kind, as error messages use it. -/
def kind : Value → String
  | unassigned => "unassigned"
  | number _ => "number"
  | bool _ => "boolean"
  | symbol _ => "symbol"
  | position _ => "position"

def number? : Value → Option Number.Double
  | number n => some n
  | _ => none

def position? : Value → Option Nat
  | position k => some k
  | _ => none

/-- Applies a function of doubles to two numbers. -/
def combine (f : Number.Double → Number.Double → Number.Double) :
    Value → Value → Option Value
  | number x, number y => some (number (f x y))
  | _, _ => none

def add? : Value → Value → Option Value := combine (· + ·)
def sub? : Value → Value → Option Value := combine (· - ·)
def mul? : Value → Value → Option Value := combine (· * ·)
def div? : Value → Value → Option Value := combine (· / ·)
def rem? : Value → Value → Option Value := combine (· % ·)

/-- An operator on two numbers has a value for two numbers and for nothing else. -/
theorem combine_eq_some_iff {f : Number.Double → Number.Double → Number.Double} {a b v : Value} :
    combine f a b = some v ↔ ∃ x y, a = .number x ∧ b = .number y ∧ v = .number (f x y) := by
  constructor
  · intro h
    unfold combine at h
    split at h
    · exact ⟨_, _, rfl, rfl, (Option.some.inj h).symm⟩
    · exact absurd h (by simp)
  · intro h
    obtain ⟨x, y, rfl, rfl, rfl⟩ := h
    rfl

def neg? : Value → Option Value
  | number n => some (number (-n))
  | _ => none

def not? : Value → Option Value
  | bool b => some (bool !b)
  | _ => none

/-- Equality as a program sees it. -/
def same : Value → Value → Bool
  | unassigned, unassigned => true
  | number x, number y => x.same y
  | bool a, bool b => a == b
  | symbol s, symbol t => s == t
  | position j, position k => j == k
  | _, _ => false

/-- The order of two numbers, two symbols (by code point) or two positions. Values of other or
different kinds are not ordered, nor is a double that is no number. -/
def compare? : Value → Value → Option Ordering
  | number x, number y => x.compare? y
  | symbol s, symbol t => some (compare s t)
  | position j, position k => some (compare j k)
  | _, _ => none

end Value

end RegisterMachine
