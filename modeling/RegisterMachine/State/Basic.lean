import RegisterMachine.Operation.Basic
import RegisterMachine.State.Registers
import RegisterMachine.State.Stack

/-!
# The state of a run

What the instructions of a program change: the registers, the stack and the tape, which collects in
order what host functions did to the outside world.
-/

namespace RegisterMachine

structure State where
  registers : Registers
  stack : Stack
  tape : Array Effect
deriving DecidableEq

namespace State

/-- The state of a machine on which nothing has happened. -/
def initial : State := ⟨.initial, .empty, #[]⟩

instance : Inhabited State := ⟨initial⟩

/-- Changes a register. -/
def set (s : State) (id : Nat) (v : Value) : State :=
  { s with registers := s.registers.set id v }

/-- Moves the counter. -/
def jump (s : State) (position : Nat) : State := s.set Registers.counter (.position position)

end State

end RegisterMachine
