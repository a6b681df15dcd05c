import RegisterMachine.Machine.Step

/-!
# Machines

A machine is put together by requests, started once, and then runs by itself, one `tick` at a time,
until it halts at the end of its program or fails. From the moment it is started nothing but the
content of its registers can be changed from outside.

Requests and starts change a machine in place (`Machine.InPlace`). For each there is also what it makes
of a machine, or the error that it is refused with: no machine stands beside an error, since a call
that is refused is to leave the machine as it was.

Nothing here bounds a run: `runFor` takes as many ticks as it is told, and a finished machine does not
change under further ones.
-/

namespace RegisterMachine

structure Settings where
  /-- Fail before executing more instructions than this. A limit can be any number; that 64 bits hold
  none from `2 ^ 64` on is left out. -/
  stepLimit : Option Nat
  /-- Fail if values are left on the stack at the end. -/
  balanced : Bool
deriving DecidableEq

/-- No limit and no check. -/
def Settings.default : Settings := ⟨none, false⟩

instance : Inhabited Settings := ⟨.default⟩

/-- The stages of a machine's life. -/
inductive Phase where
  | configuring
  | running
  | halted
  | failed (e : RunError)

structure Machine where
  settings : Settings
  operations : Operations
  program : Option Program
  phase : Phase
  /-- Instructions executed so far, a failing one included. They are counted without a bound; that a
  count of 64 bits wraps at `2 ^ 64` is left out. -/
  steps : Nat
  state : State

/-- What a completed run reports. -/
structure Done where
  steps : Nat
  stack : Stack.Statistics
deriving DecidableEq

/-- A request to a machine that is not started yet, or a change to one of its registers. -/
inductive Request where
  | allocate (register : String)
  | install (bindings : List Binding)
  | program (controller : List Item)
  | set (register : String) (v : Value)

namespace Machine

/-- A machine with the counter, the flag and the operation that empties the stack. -/
def new (settings : Settings) : Machine where
  settings := settings
  operations := .initial
  program := none
  phase := .configuring
  steps := 0
  state := .initial

instance : Inhabited Machine := ⟨new .default⟩

/-! ## Putting a machine together -/

/-- Whether a machine can still be put together. -/
def configurable (m : Machine) : Except ConfigError Unit :=
  match m.phase with
  | .configuring => .ok ()
  | .running | .halted | .failed _ => .error .frozen

/-- Adds a register. -/
def allocate (m : Machine) (name : String) : Except ConfigError Machine := do
  m.configurable
  let registers ← m.state.registers.allocate name
  return { m with state := { m.state with registers } }

/-- Adds operations; names that are bound keep their first binding. -/
def install (m : Machine) (bindings : List Binding) : Except ConfigError Machine := do
  m.configurable
  return { m with operations := m.operations.installAll bindings }

/-- Makes a program of a controller, for the registers and operations there are by now, in place of
any earlier program. -/
def setProgram (m : Machine) (controller : List Item) : Except ConfigError Machine := do
  m.configurable
  let p ← Program.ofController m.state.registers m.operations controller
  return { m with program := some p }

/-- The content of the register with this name. -/
def register? (m : Machine) (name : String) : Option Value := m.state.registers.get? name

/-- Changes the content of a register, whatever stage the machine is in. -/
def setRegister (m : Machine) (name : String) (v : Value) : Except ConfigError Machine :=
  match m.state.registers.set? name v with
  | some registers => .ok { m with state := { m.state with registers } }
  | none => .error (.noSuchRegister name)

/-- Carries a request out. -/
def apply (m : Machine) : Request → Except ConfigError Machine
  | .allocate register => m.allocate register
  | .install bindings => m.install bindings
  | .program controller => m.setProgram controller
  | .set register v => m.setRegister register v

/-- Carries requests out in turn, up to the first that is refused. -/
def applyAll (m : Machine) : List Request → Except ConfigError Machine
  | [] => .ok m
  | r :: rs => do (← m.apply r).applyAll rs

namespace InPlace

/-- Refuses a machine that cannot be put together any more. -/
def configurable : InPlace Machine ConfigError Unit := do
  let m ← get
  MonadExcept.ofExcept m.configurable

/-- Adds a register and answers its number. -/
def allocate (name : String) : InPlace Machine ConfigError Nat := do
  configurable
  (Registers.InPlace.allocate name).within (·.state.registers)
    fun m registers => { m with state := { m.state with registers } }

/-- Adds operations one after the other. -/
def install (bindings : List Binding) : InPlace Machine ConfigError Unit := do
  configurable
  forM bindings fun b => modify fun m => { m with operations := m.operations.install b }

/-- Puts the program of a controller, once there is one, in place of any earlier program. -/
def setProgram (controller : List Item) : InPlace Machine ConfigError Unit := do
  configurable
  let m ← get
  let p ← MonadExcept.ofExcept (Program.ofController m.state.registers m.operations controller)
  modify fun m => { m with program := some p }

/-- Changes the content of a register, whatever stage the machine is in. -/
def setRegister (name : String) (v : Value) : InPlace Machine ConfigError Unit := do
  let m ← get
  match m.state.registers.lookup name with
  | some id => modify fun m => { m with state := m.state.set id v }
  | none => throw (.noSuchRegister name)

/-- Carries a request out. -/
def apply : Request → InPlace Machine ConfigError Unit
  | .allocate register => do
    let _ ← allocate register
  | .install bindings => install bindings
  | .program controller => setProgram controller
  | .set register v => setRegister register v

/-- Starts a machine, up to where its first instruction is to be executed. -/
def start : InPlace Machine RunError Unit := do
  let m ← get
  match m.phase with
  | .configuring =>
    match m.program with
    | some _ =>
      modify fun m => { m with phase := .running }
      modify fun m => { m with state := m.state.jump 0 }
    | none => throw .noProgram
  | .running | .halted | .failed _ => throw .alreadyStarted

end InPlace

/-! ## Running a machine -/

/-- Starts a machine: its counter is set to the first instruction. -/
def start (m : Machine) : Except RunError Machine :=
  match m.phase, m.program with
  | .configuring, some _ => .ok { m with phase := .running, state := m.state.jump 0 }
  | .configuring, none => .error .noProgram
  | .running, _ | .halted, _ | .failed _, _ => .error .alreadyStarted

/-- Ends a run that has come to the end of its program. -/
def finish (m : Machine) : Machine :=
  let depth := m.state.stack.depth
  { m with
    phase := if m.settings.balanced ∧ depth ≠ 0 then .failed (.unbalanced depth) else .halted }

/-- Executes a line of the program, once it is counted. A fault ends the run, in the state that the
instruction leaves. -/
def step (m : Machine) (size here : Nat) (line : Line) : Machine :=
  let m := { m with steps := m.steps + 1 }
  match (line.action.execute m.operations size here).on m.state with
  | (.ok (), state) => { m with state }
  | (.error fault, state) =>
    { m with state, phase := .failed (.instruction here line.instruction fault) }

/-- The step limit, once no further instruction may be executed. -/
def exhausted (m : Machine) : Option Nat := m.settings.stepLimit.filter (· ≤ m.steps)

/-- One turn of a running machine: the line that the counter points at, or the end. A machine that
is not running stays as it is. -/
def tick (m : Machine) : Machine :=
  match m.phase, m.program with
  | .running, some p =>
    match m.state.registers.get Registers.counter with
    | .position here =>
      match p.lines[here]? with
      | some line =>
        match m.exhausted with
        | some limit => { m with phase := .failed (.stepLimit limit) }
        | none => m.step p.size here line
      | none => m.finish
    | v => { m with phase := .failed (.badCounter v) }
  | _, _ => m

/-- Whether a machine has left its program, one way or another, or never was in it. -/
def idle (m : Machine) : Bool :=
  match m.phase with
  | .running => false
  | .configuring | .halted | .failed _ => true

/-- Lets a machine run for at most so many ticks. -/
def runFor : Nat → Machine → Machine
  | 0, m => m
  | n + 1, m => if m.idle then m else m.tick.runFor n

/-- The result of a run, once there is one. -/
def outcome (m : Machine) : Option (Except RunError Done) :=
  match m.phase with
  | .halted => some (.ok ⟨m.steps, m.state.stack.statistics⟩)
  | .failed e => some (.error e)
  | .configuring | .running => none

end Machine

/-! ## Machines from descriptions -/

namespace Description

/-- The requests that make up the machine described, with these operations. -/
def requests (d : Description) (bindings : List Binding) : List Request :=
  d.registers.map .allocate ++ [.install bindings, .program d.controller]

/-- The machine described, with these operations. -/
def build (d : Description) (bindings : List Binding) (settings : Settings) :
    Except ConfigError Machine :=
  (Machine.new settings).applyAll (d.requests bindings)

end Description

end RegisterMachine
