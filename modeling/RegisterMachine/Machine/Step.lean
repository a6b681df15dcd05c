import RegisterMachine.Machine.Error
import RegisterMachine.Program.Basic
import RegisterMachine.State.Basic

/-!
# What actions do

An action reads the state of a run, applies an operation or takes a value off the stack, changes a
register, and moves the counter, to the next instruction or to the target of a jump. The target of a
jump through a register is checked when the jump is made, since a register can hold anything; labels
need no check.

A machine performs actions in place, one change after the other (`execute`). An action can fail, but
whatever can fail is done before anything is changed; so it can also be read as a function that takes
a state to the next one or to a fault (`run`).
-/

namespace RegisterMachine

/-- The value of an input. -/
def Operand.value (r : Registers) : Operand → Value
  | const v => v
  | reg id => r.get id
  | label p => .position p

/-- Applies an operation to its inputs. -/
def Application.run (ops : Operations) (a : Application) (s : State) :
    Except Fault (Value × State) :=
  match ops.get? a.op with
  | none => .error (.operation "" (.other "no such operation"))
  | some ⟨_, .initializeStack⟩ => .ok (.unassigned, { s with stack := .empty })
  | some ⟨name, .host f⟩ =>
    match f (a.inputs.map (Operand.value s.registers)) with
    | .ok reply => .ok (reply.value, { s with tape := s.tape ++ reply.effects })
    | .error e => .error (.operation name e)

/-- The value that is assigned. -/
def Source.run (ops : Operations) (source : Source) (s : State) : Except Fault (Value × State) :=
  match source with
  | operand o => .ok (o.value s.registers, s)
  | apply a => a.run ops s

namespace Action

/-- Performs the action of the instruction at position `here`, in a program of the given size. -/
def run (ops : Operations) (size here : Nat) (action : Action) (s : State) : Except Fault State :=
  match action with
  | assign target source => do
    let (v, s) ← source.run ops s
    return (s.set target v).jump (here + 1)
  | test a => do
    let (v, s) ← a.run ops s
    return (s.set Registers.flag (.bool v.isTrue)).jump (here + 1)
  | branch position =>
    .ok (s.jump (if (s.registers.get Registers.flag).isTrue then position else here + 1))
  | goto position => .ok (s.jump position)
  | gotoReg id =>
    match s.registers.get id with
    | .position p => if p ≤ size then .ok (s.jump p) else .error (.badJump (.position p))
    | v => .error (.badJump v)
  | save id =>
    .ok ({ s with stack := s.stack.push (s.registers.get id) }.jump (here + 1))
  | restore id => do
    let (v, stack) ← s.stack.pop
    return ({ s with stack }.set id v).jump (here + 1)
  | perform a => do
    let (_, s) ← a.run ops s
    return s.jump (here + 1)

end Action

/-! ## In place -/

/-- Applies an operation to its inputs, which are read first. -/
def Application.execute (ops : Operations) (a : Application) : InPlace State Fault Value := do
  let inputs := a.inputs.map (Operand.value (← get).registers)
  match ops.get? a.op with
  | none => throw (.operation "" (.other "no such operation"))
  | some ⟨_, .initializeStack⟩ =>
    modify fun s => { s with stack := .empty }
    return .unassigned
  | some ⟨name, .host f⟩ =>
    match f inputs with
    | .ok reply =>
      modify fun s => { s with tape := s.tape ++ reply.effects }
      return reply.value
    | .error e => throw (.operation name e)

def Source.execute (ops : Operations) : Source → InPlace State Fault Value
  | operand o => return o.value (← get).registers
  | apply a => a.execute ops

/-- Takes a value off the stack of a run. -/
def State.InPlace.pop : InPlace State Fault Value :=
  Stack.InPlace.pop.within State.stack fun s stack => { s with stack }

/-- Performs the action of the instruction at position `here`, in a program of the given size. -/
def Action.execute (ops : Operations) (size here : Nat) (action : Action) :
    InPlace State Fault Unit :=
  match action with
  | assign target source => do
    let v ← source.execute ops
    modify (·.set target v)
    modify (·.jump (here + 1))
  | test a => do
    let v ← a.execute ops
    modify (·.set Registers.flag (.bool v.isTrue))
    modify (·.jump (here + 1))
  | branch position => do
    let s ← get
    if (s.registers.get Registers.flag).isTrue then modify (·.jump position)
    else modify (·.jump (here + 1))
  | goto position => modify (·.jump position)
  | gotoReg id => do
    let target := (← get).registers.get id
    match target.position? with
    | some p => if p ≤ size then modify (·.jump p) else throw (.badJump target)
    | none => throw (.badJump target)
  | save id => do
    let v := (← get).registers.get id
    modify fun s => { s with stack := s.stack.push v }
    modify (·.jump (here + 1))
  | restore id => do
    let v ← State.InPlace.pop
    modify (·.set id v)
    modify (·.jump (here + 1))
  | perform a => do
    let _ ← a.execute ops
    modify (·.jump (here + 1))

end RegisterMachine
