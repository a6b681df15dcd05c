import RegisterMachine.Operation.Basic

/-!
# Standard operations

Arithmetic, comparison, equality, negation and printing. Each first counts its arguments and then
looks at their kinds, from the left; only division and remainder look at the divisor first, and tell
a zero divisor before a dividend that is no number. Sum, difference and product are those of values,
asked for only when both arguments are numbers.
-/

namespace RegisterMachine

inductive Standard where
  | add | sub | mul | div | rem
  | equal | less | greater | lessEq | greaterEq
  | not | print
deriving DecidableEq

namespace Standard

def name : Standard → String
  | add => "+"
  | sub => "-"
  | mul => "*"
  | div => "/"
  | rem => "rem"
  | equal => "="
  | less => "<"
  | greater => ">"
  | lessEq => "<="
  | greaterEq => ">="
  | not => "not"
  | print => "print"

/-- All standard operations, in the order of their names. -/
def all : List Standard :=
  [mul, add, sub, div, less, lessEq, equal, greater, greaterEq, not, print, rem]

/-- The number that an argument is. -/
def number (v : Value) : Except OperationError Number.Double :=
  match v with
  | .number n => .ok n
  | v => .error (.typeConflict "number" v)

/-- The two arguments of an operation that takes two. -/
def pair (args : List Value) : Except OperationError (Value × Value) :=
  match args with
  | [a, b] => .ok (a, b)
  | _ => .error (.arity 2 args.length)

/-- An operator applied to two numbers. -/
def onNumbers (operator : Value → Value → Option Value) : Host := fun args => do
  let (a, b) ← pair args
  let _ ← number a
  let _ ← number b
  match operator a b with
  | some v => return .silent v
  | none => throw (.other "arithmetic on non-numbers")

/-- Whether the order of two numbers is as wanted; numbers without an order never are. -/
def onOrder (wanted : Ordering → Bool) : Host := fun args => do
  let (a, b) ← pair args
  let x ← number a
  let y ← number b
  return .silent (.bool ((x.compare? y).any wanted))

/-- An operation on two numbers whose second must not be a zero. -/
def onQuotient (f : Number.Double → Number.Double → Number.Double) : Host := fun args => do
  let (a, b) ← pair args
  let y ← number b
  if y.isZero then throw .divisionByZero
  let x ← number a
  return .silent (.number (f x y))

/-- What a standard operation does. -/
def host : Standard → Host
  | add => onNumbers Value.add?
  | sub => onNumbers Value.sub?
  | mul => onNumbers Value.mul?
  | div => onQuotient (· / ·)
  | rem => onQuotient (· % ·)
  | less => onOrder Ordering.isLT
  | greater => onOrder Ordering.isGT
  | lessEq => onOrder Ordering.isLE
  | greaterEq => onOrder Ordering.isGE
  | equal => fun args => do
    let (a, b) ← pair args
    return .silent (.bool (a.same b))
  | not => fun args =>
    match args with
    | [a] => .ok (.silent (.bool !a.isTrue))
    | _ => .error (.arity 1 args.length)
  | print => fun args =>
    .ok ⟨.unassigned, [.printed (String.intercalate " " (args.map Value.text))]⟩

/-- The standard operation with this name. -/
def ofName? (name : String) : Option Standard := all.find? (·.name = name)

/-- A standard operation under its own name. -/
def binding (s : Standard) : Binding := ⟨s.name, .host s.host⟩

/-- The standard operations as they are installed: by name. -/
def bindings : List Binding := all.map binding

end Standard

end RegisterMachine
