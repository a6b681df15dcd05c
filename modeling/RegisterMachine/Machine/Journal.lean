import RegisterMachine.Machine.Basic

/-!
# The journal

What a machine notes down while it is put together and while it runs. The journal is worked out
beside the machine and not by it: for a request or a tick it says what the machine notes when that
is done to it, so a machine is the same whether or not anyone keeps its journal.
-/

namespace RegisterMachine

inductive Level where
  | trace | debug | warn
deriving DecidableEq

/-- A kind of thing worth noting. -/
inductive Event where
  | allocated (register : String)
  /-- A binding was not taken in, since its name is bound. -/
  | bindingRefused (operation : String)
  /-- A label is seen, from the bottom up, that has been seen further down. -/
  | labelRepeated (label : String)
  /-- A controller was refused for this instruction. -/
  | rejected (i : Instruction) (why : ConfigError)
  | assembled (instructions labels : Nat)
  | executing (position : Nat) (i : Instruction)
  | halted (steps : Nat)
  | failed (why : RunError)

namespace Event

def level : Event → Level
  | executing .. => .trace
  | bindingRefused _ => .warn
  | allocated _ | labelRepeated _ | rejected .. | assembled .. | halted _ | failed _ => .debug

def message : Event → String
  | allocated _ => "allocated register"
  | bindingRefused _ => "operation already installed, keeping the first binding"
  | labelRepeated _ => "label defined more than once"
  | rejected _ why => why.message
  | assembled .. => "assembled controller"
  | executing .. => "exec"
  | halted _ => "machine halted"
  | failed _ => "machine failed"

/-- The particulars of an event, each under a name. The message about a malformed instruction shows
it already. -/
def fields : Event → List (String × String)
  | allocated register => [("register", register)]
  | bindingRefused operation => [("operation", operation)]
  | labelRepeated label => [("label", label)]
  | rejected _ (.malformed ..) => []
  | rejected i _ => [("instruction", i.text)]
  | assembled instructions labels =>
    [("instructions", toString instructions), ("labels", toString labels)]
  | executing position i => [("position", toString position), ("instruction", i.text)]
  | halted steps => [("steps", toString steps)]
  | failed why => [("error", why.message)]

end Event

namespace Program

/-- The first instruction that cannot be resolved, with the reason. -/
def firstFault (s : Scope) : List Instruction → Option (Instruction × ConfigError)
  | [] => none
  | i :: is =>
    match i.resolve s with
    | .error e => some (i, e)
    | .ok _ => firstFault s is

/-- What is noted while a controller is made a program. -/
def events (registers : Registers) (operations : Operations) (items : List Item) : List Event :=
  let labels := Labels.ofItems items
  let instructions := Item.instructions items
  (Item.repeated items).map .labelRepeated ++
    match firstFault (.of registers operations labels) instructions with
    | some (i, e) => [.rejected i e]
    | none => [.assembled instructions.length labels.size]

end Program

namespace Machine

/-- What a machine notes when a request is made to it. -/
def requestEvents (m : Machine) (r : Request) : List Event :=
  match m.configurable with
  | .error _ => []
  | .ok () =>
    match r with
    | .allocate register =>
      if (m.state.registers.lookup register).isSome then [] else [.allocated register]
    | .install bindings => (m.operations.refused bindings).map fun b => .bindingRefused b.name
    | .program controller => Program.events m.state.registers m.operations controller
    | .set .. => []

/-- What a machine notes when requests are made to it in turn, up to the first that is refused. -/
def requestsEvents (m : Machine) : List Request → List Event
  | [] => []
  | r :: rs =>
    m.requestEvents r ++
      match m.apply r with
      | .ok m' => m'.requestsEvents rs
      | .error _ => []

/-- What a machine notes in its next tick: the instruction it executes, and the end of its run. -/
def tickEvents (m : Machine) : List Event :=
  match m.phase, m.program with
  | .running, some p =>
    let next := m.tick
    let executing :=
      match m.state.registers.get Registers.counter with
      | .position here =>
        match p.lines[here]? with
        | some line => if m.steps < next.steps then [.executing here line.instruction] else []
        | none => []
      | _ => []
    executing ++
      match next.phase with
      | .halted => [.halted next.steps]
      | .failed e => [.failed e]
      | .configuring | .running => []
  | _, _ => []

/-- Lets a machine run for at most so many ticks, and adds to a journal what it notes. -/
def follow : Nat → Machine → Array Event → Machine × Array Event
  | 0, m, journal => (m, journal)
  | n + 1, m, journal => if m.idle then (m, journal) else follow n m.tick (journal ++ m.tickEvents)

end Machine

end RegisterMachine
