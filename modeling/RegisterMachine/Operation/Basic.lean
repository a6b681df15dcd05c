import RegisterMachine.Value.Basic
import RegisterMachine.Value.Text

/-!
# Operations

What a controller can name with `(op ...)`: a function that the host of the machine supplies, or the
one operation that works on the machine itself. A host function is pure: it answers an error, or a
value together with what it did to the outside world, as data. An error has no effects.

The table of operations gives every name its first binding; a later one of the same name is not
taken in. Compiled programs refer to operations by number, which is why bindings are never removed
or moved.
-/

namespace RegisterMachine

inductive OperationError where
  | arity (expected got : Nat)
  /-- An argument of another kind than the one that is named. -/
  | typeConflict (expected : String) (got : Value)
  | divisionByZero
  | other (why : String)
deriving DecidableEq

def OperationError.message : OperationError → String
  | arity expected got =>
    "expected " ++ toString expected ++ " argument(s), got " ++ toString got
  | typeConflict expected got => "expected a " ++ expected ++ ", got " ++ got.text
  | divisionByZero => "division by zero"
  | other why => why

/-- What a host function did besides answering. -/
inductive Effect where
  /-- A line was printed. -/
  | printed (line : String)
  /-- Values were handed to the host, under the name it gave the function. -/
  | reported (source : String) (values : List Value)
deriving DecidableEq

/-- The answer of a host function. -/
structure Reply where
  value : Value
  effects : List Effect
deriving DecidableEq

/-- The reply of a function that only answers. -/
def Reply.silent (v : Value) : Reply := ⟨v, []⟩

/-- A function of the host over the values of its inputs. -/
abbrev Host : Type := List Value → Except OperationError Reply

inductive Operation where
  | host (f : Host)
  /-- Empties the machine's stack and its counts. -/
  | initializeStack

/-- A name with what it stands for. -/
structure Binding where
  name : String
  operation : Operation

structure Operations where
  bindings : List Binding

namespace Operations

/-- No operations at all. -/
def empty : Operations := ⟨[]⟩

/-- The name of the operation that every machine has. -/
def initializeStackName : String := "initialize-stack"

/-- The operations of a machine before any are installed. -/
def initial : Operations := ⟨[⟨initializeStackName, .initializeStack⟩]⟩

instance : Inhabited Operations := ⟨initial⟩

/-- The number of the operation with this name. -/
def lookup (t : Operations) (name : String) : Option Nat := t.bindings.findIdx? (·.name = name)

def binds (t : Operations) (name : String) : Bool := t.bindings.any (·.name = name)

def size (t : Operations) : Nat := t.bindings.length

/-- Adds a binding, unless its name is bound already. -/
def install (t : Operations) (b : Binding) : Operations :=
  if t.binds b.name then t else ⟨t.bindings ++ [b]⟩

/-- Adds bindings one after the other. -/
def installAll (t : Operations) (bs : List Binding) : Operations := bs.foldl install t

/-- Those of the bindings that `installAll` does not take in. -/
def refused (t : Operations) : List Binding → List Binding
  | [] => []
  | b :: bs => if t.binds b.name then b :: refused t bs else refused (t.install b) bs

/-- The binding with this number. -/
def get? (t : Operations) (id : Nat) : Option Binding := t.bindings[id]?

/-! ## What a table knows -/

theorem binds_eq_isSome_lookup (t : Operations) (name : String) :
    t.binds name = (t.lookup name).isSome := by
  simp [binds, lookup]

/-- A name is bound as it was before, or else by the binding that is added. -/
theorem lookup_install (t : Operations) (b : Binding) (name : String) :
    (t.install b).lookup name =
      (t.lookup name).or (if b.name = name then some t.size else none) := by
  unfold install
  split
  · next h =>
    by_cases hn : b.name = name
    · rw [binds_eq_isSome_lookup, hn] at h
      obtain ⟨id, hid⟩ := Option.isSome_iff_exists.1 h
      simp [hid]
    · simp [hn]
  · simp [lookup, size, List.findIdx?_append, List.findIdx?_cons]

/-- No number changes its binding. -/
theorem get?_install {t : Operations} {id : Nat} (h : id < t.size) (b : Binding) :
    (t.install b).get? id = t.get? id := by
  unfold install
  split
  · rfl
  · simp [get?, List.getElem?_append_left h]

end Operations

end RegisterMachine
