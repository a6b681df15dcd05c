import RegisterMachine.Controller.Labels
import RegisterMachine.Operation.Basic
import RegisterMachine.Program.Error
import RegisterMachine.State.Registers

/-!
# Programs

A program is a controller whose names have been settled: every instruction has become an action, in
which registers and operations are numbers and labels are positions. Only the contents of registers
are left to be read while it runs. Each line keeps the instruction that the action was made from.

Making a program looks names up and does nothing else with the machine, so it depends on three
look-ups alone, which make up a `Scope`. Where an instruction has several faults the first one that
a left-to-right reading meets is reported: the register that is written before its source, the
operation before its inputs.
-/

namespace RegisterMachine

/-- An input with its name settled. -/
inductive Operand where
  | const (value : Value)
  | reg (id : Nat)
  | label (position : Nat)
deriving DecidableEq

/-- An operation, by number, with its inputs. -/
structure Application where
  op : Nat
  inputs : List Operand
deriving DecidableEq

/-- Where an assigned value comes from. -/
inductive Source where
  | operand (o : Operand)
  | apply (a : Application)
deriving DecidableEq

/-- What an instruction does. -/
inductive Action where
  | assign (target : Nat) (source : Source)
  | test (a : Application)
  | branch (position : Nat)
  | goto (position : Nat)
  /-- Goes to the position that a register holds. -/
  | gotoReg (id : Nat)
  | save (id : Nat)
  | restore (id : Nat)
  | perform (a : Application)
deriving DecidableEq

/-- One instruction of a program with its action. -/
structure Line where
  instruction : Instruction
  action : Action

structure Program where
  lines : Array Line
  labels : Labels
deriving Inhabited

/-- The number of instructions, which is also the position behind the last one. -/
def Program.size (p : Program) : Nat := p.lines.size

/-- What the names in a controller stand for. -/
structure Scope where
  register : String → Option Nat
  operation : String → Option Nat
  label : String → Option Nat

/-- The scope made of a machine's tables and a controller's labels. -/
def Scope.of (registers : Registers) (operations : Operations) (labels : Labels) : Scope :=
  ⟨registers.lookup, operations.lookup, labels.lookup⟩

namespace Instruction

variable (s : Scope) (i : Instruction)

/-- The number of a register that instruction `i` names. -/
def register (name : String) : Except ConfigError Nat :=
  match s.register name with
  | some id => .ok id
  | none => .error (.unknownRegister name i.verb)

/-- The number of a register that instruction `i` writes. The counter moves by jumps alone. -/
def target (name : String) : Except ConfigError Nat := do
  let id ← i.register s name
  if id = Registers.counter then throw (.malformed i .counterTarget)
  return id

/-- The position of a label that instruction `i` names. -/
def position (name : String) : Except ConfigError Nat :=
  match s.label name with
  | some p => .ok p
  | none => .error (.unknownLabel name i.verb)

/-- An input of instruction `i` or of its operation. -/
def operand : Expr → Except ConfigError Operand
  | .const v => .ok (.const v)
  | .reg name => (i.register s name).map .reg
  | .label name => (i.position s name).map .label
  | .op .. => .error (.malformed i .nestedOperation)

/-- The inputs of the operation in instruction `i`. -/
def operands : List Expr → Except ConfigError (List Operand)
  | [] => .ok []
  | x :: xs => do
    let o ← i.operand s x
    let os ← operands xs
    return o :: os

/-- The operation in instruction `i`. -/
def application (name : String) (inputs : List Expr) : Except ConfigError Application :=
  match s.operation name with
  | some op => (i.operands s inputs).map (⟨op, ·⟩)
  | none => .error (.unknownOperation name i.verb)

/-- The action that an instruction stands for. -/
def resolve : Except ConfigError Action :=
  match i with
  | .assign name source => do
    let target ← i.target s name
    match source with
    | .op op inputs => return .assign target (.apply (← i.application s op inputs))
    | e => return .assign target (.operand (← i.operand s e))
  | .test (.op op inputs) => (i.application s op inputs).map .test
  | .test _ => .error (.malformed i .testCondition)
  | .branch (.label name) => (i.position s name).map .branch
  | .branch _ => .error (.malformed i .branchTarget)
  | .goto (.label name) => (i.position s name).map .goto
  | .goto (.reg name) => (i.register s name).map .gotoReg
  | .goto _ => .error (.malformed i .gotoTarget)
  | .save name => (i.register s name).map .save
  | .restore name => (i.target s name).map .restore
  | .perform (.op op inputs) => (i.application s op inputs).map .perform
  | .perform _ => .error (.malformed i .performAction)

end Instruction

namespace Program

/-- The lines that instructions become; the first instruction at fault decides the error. -/
def resolveAll (s : Scope) : List Instruction → Except ConfigError (List Line)
  | [] => .ok []
  | i :: is => do
    let action ← i.resolve s
    let lines ← resolveAll s is
    return ⟨i, action⟩ :: lines

/-- Makes a program of a controller, for a machine with these registers and operations. -/
def ofController (registers : Registers) (operations : Operations) (items : List Item) :
    Except ConfigError Program := do
  let labels := Labels.ofItems items
  let lines ← resolveAll (.of registers operations labels) (Item.instructions items)
  return ⟨lines.toArray, labels⟩

end Program

end RegisterMachine
