import RegisterMachine.Machine.Basic
import RegisterMachine.Proofs.Labels

/-!
# Controllers, read as they stand

This is what a controller means to somebody who reads it: registers are known by their names, an
operation is the first binding of its name, a label is what stands behind its first occurrence, and
the counter is what is left of the instructions. Nothing is numbered and nothing is prepared. An
instruction is looked at when its turn comes, and one that makes no sense then has no meaning: the
reader is stuck.

The interpreter is slow and simple on purpose. It is what the running machine is measured against.
-/

namespace RegisterMachine

/-- A controller with everything that gives it a meaning and does not change while it runs. -/
structure Interpreter where
  controller : List Item
  bindings : List Binding
  settings : Settings

namespace Interpreter

/-- What changes from one instruction to the next. -/
structure Store where
  /-- The registers by name. The counter is not among them. -/
  registers : String → Option Value
  /-- The counter: the instructions that are still to be executed, as far as no jump interferes. -/
  rest : List Instruction
  stack : Stack
  tape : Array Effect

/-- A result, or a fault, or (as the error `none`) the absence of any meaning. -/
abbrev Result (α : Type) : Type := Except (Option Fault) α

/-- What was found; something that is not there has no meaning. -/
def found {α : Type} : Option α → Result α
  | some a => .ok a
  | none => .error none

variable (c : Interpreter)

def instructions : List Instruction := Item.instructions c.controller

/-- How many instructions stand above a rest. -/
def above (rest : List Instruction) : Nat := c.instructions.length - rest.length

/-- A rest of the instructions as a value. -/
def position (rest : List Instruction) : Value := .position (c.above rest)

/-- The instructions behind the first label with this name. -/
def behind (name : String) : Result (List Instruction) := found (Item.behind name c.controller)

/-- What the name of an operation stands for: its first binding, and one of them comes before all
that were installed. -/
def operation (name : String) : Result Operation :=
  found (((⟨Operations.initializeStackName, .initializeStack⟩ :: c.bindings).find?
    (·.name = name)).map Binding.operation)

/-- The content of a register; of the counter, the position of what is left. -/
def read (s : Store) (name : String) : Result Value :=
  if name = "pc" then .ok (c.position s.rest) else found (s.registers name)

/-- Changes the content of a register, if there is one with this name. -/
def assign (registers : String → Option Value) (name : String) (v : Value) :
    String → Option Value :=
  fun other => if other = name then (registers name).map fun _ => v else registers other

theorem assign_self {registers : String → Option Value} {name : String} {old : Value}
    (h : registers name = some old) (v : Value) : assign registers name v name = some v := by
  unfold assign
  rw [if_pos rfl, h]
  rfl

theorem assign_of_ne {registers : String → Option Value} {name other : String}
    (h : other ≠ name) (v : Value) : assign registers name v other = registers other := if_neg h

/-- Where there is no register, nothing is changed. -/
theorem assign_of_none {registers : String → Option Value} {name : String}
    (h : registers name = none) (v : Value) : assign registers name v = registers := by
  funext other
  unfold assign
  by_cases ho : other = name
  · rw [if_pos ho, ho, h]; rfl
  · rw [if_neg ho]

def Store.write (s : Store) (name : String) (v : Value) : Result Store := do
  let _ ← found (s.registers name)
  return { s with registers := assign s.registers name v }

/-- Goes on with other instructions. -/
def Store.goto (s : Store) (rest : List Instruction) : Store := { s with rest }

/-- Goes on with the next instruction. -/
def Store.advance (s : Store) : Store := s.goto s.rest.tail

/-! ## Expressions -/

/-- The value of an expression that is no operation. -/
def value (s : Store) : Expr → Result Value
  | .const v => .ok v
  | .reg name => c.read s name
  | .label name => do return c.position (← c.behind name)
  | .op .. => .error none

/-- Applies an operation to what its inputs are now. -/
def apply (s : Store) (name : String) (inputs : List Expr) : Result (Value × Store) := do
  let operation ← c.operation name
  let values ← inputs.mapM (c.value s)
  match operation with
  | .initializeStack => return (.unassigned, { s with stack := .empty })
  | .host f =>
    match f values with
    | .ok reply => return (reply.value, { s with tape := s.tape ++ reply.effects })
    | .error e => .error (some (.operation name e))

def evaluate (s : Store) : Expr → Result (Value × Store)
  | .op name inputs => c.apply s name inputs
  | e => do return (← c.value s e, s)

/-! ## Instructions -/

/-- Executes an instruction, the first one of what is left. -/
def exec (s : Store) : Instruction → Result Store
  | .assign name source => do
    let (v, s) ← c.evaluate s source
    let s ← s.write name v
    return s.advance
  | .test (.op name inputs) => do
    let (v, s) ← c.apply s name inputs
    let s ← s.write "flag" (.bool v.isTrue)
    return s.advance
  | .branch (.label name) => do
    let v ← c.read s "flag"
    let rest ← c.behind name
    return if v.isTrue then s.goto rest else s.advance
  | .goto (.label name) => do
    let rest ← c.behind name
    return s.goto rest
  | .goto (.reg name) => do
    match ← c.read s name with
    | .position k =>
      if k ≤ c.instructions.length then return s.goto (c.instructions.drop k)
      else .error (some (.badJump (.position k)))
    | v => .error (some (.badJump v))
  | .save name => do
    let v ← c.read s name
    return { s with stack := s.stack.push v }.advance
  | .restore name => do
    let (v, stack) ← s.stack.pop.mapError some
    let s ← { s with stack }.write name v
    return s.advance
  | .perform (.op name inputs) => do
    let (_, s) ← c.apply s name inputs
    return s.advance
  | .test _ | .branch _ | .goto _ | .perform _ => .error none

/-! ## Runs -/

/-- A controller that is being executed. -/
structure Run where
  store : Store
  steps : Nat
  phase : Phase

/-- What becomes of a run when nothing is left. -/
def finish (r : Run) : Run :=
  let depth := r.store.stack.depth
  { r with
    phase := if c.settings.balanced ∧ depth ≠ 0 then .failed (.unbalanced depth) else .halted }

/-- One step of a run; there is none if the instruction whose turn it is has no meaning. A run that
has ended stays as it is. -/
def step (r : Run) : Option Run :=
  match r.phase with
  | .running =>
    match r.store.rest with
    | [] => some (c.finish r)
    | i :: _ =>
      match c.settings.stepLimit.filter (· ≤ r.steps) with
      | some limit => some { r with phase := .failed (.stepLimit limit) }
      | none =>
        match c.exec r.store i with
        | .ok store => some { r with store, steps := r.steps + 1 }
        | .error (some fault) =>
          some
            { r with
              steps := r.steps + 1
              phase := .failed (.instruction (c.above r.store.rest) i fault) }
        | .error none => none
  | .configuring | .halted | .failed _ => some r

variable {c} {r : Run}

theorem step_of_idle (h : r.phase ≠ .running) : c.step r = some r := by
  unfold step
  split
  · next hph => exact absurd hph h
  all_goals rfl

theorem step_nil (hph : r.phase = .running) (h : r.store.rest = []) :
    c.step r = some (c.finish r) := by
  unfold step
  rw [hph, h]

theorem step_cons {i : Instruction} {rest : List Instruction} (hph : r.phase = .running)
    (h : r.store.rest = i :: rest) :
    c.step r = match c.settings.stepLimit.filter (· ≤ r.steps) with
      | some limit => some { r with phase := .failed (.stepLimit limit) }
      | none =>
        match c.exec r.store i with
        | .ok store => some { r with store, steps := r.steps + 1 }
        | .error (some fault) =>
          some
            { r with
              steps := r.steps + 1
              phase := .failed (.instruction (c.above r.store.rest) i fault) }
        | .error none => none := by
  unfold step
  rw [hph, h]

variable (c)

/-- So many steps of a run. -/
def steps : Nat → Run → Option Run
  | 0, r => some r
  | n + 1, r => (c.step r).bind (steps n)

/-- The registers before a run: the flag and those that were asked for, unassigned but for the
contents that they were given, the last one of each. -/
def initialRegisters (names : List String) (sets : List (String × Value)) :
    String → Option Value :=
  sets.foldl (fun registers set => assign registers set.1 set.2)
    fun name => if name = "flag" ∨ name ∈ names then some .unassigned else none

/-- The beginning of a run, with all instructions left. -/
def start (names : List String) (sets : List (String × Value)) : Run where
  store :=
    { registers := initialRegisters names sets
      rest := c.instructions
      stack := .empty
      tape := #[] }
  steps := 0
  phase := .running

end Interpreter

/-- How a description is interpreted. -/
def Description.interpreter (d : Description) (bindings : List Binding) (settings : Settings) :
    Interpreter :=
  ⟨d.controller, bindings, settings⟩

end RegisterMachine
