import RegisterMachine.Machine.Basic
import RegisterMachine.Proofs.Success

/-!
# What fails leaves no trace

Instructions, requests and starts work in place, step by step, and an error of one does not take back
what it changed before. None of them has changed anything by then. That is shown for each action and
for each call by going through its steps, in the order in which they are made: whatever can fail comes
before the first change.

So an action does in place what `Action.run` makes of the state, a request what `Machine.apply` makes
of the machine, and a start what `Machine.start` makes of it, as a whole or not at all. All that is
known of these functions carries over to what runs.
-/

namespace RegisterMachine

open InPlace (on_bind on_get on_modify on_within on_ofExcept whole)

/-! ## Actions -/

theorem Application.on_execute (ops : Operations) (a : Application) (s : State) :
    (a.execute ops).on s = whole s (a.run ops s) := by
  simp only [execute, run, on_bind, on_get]
  rcases ops.get? a.op with _ | ⟨name, f | _⟩
  · rfl
  -- a function of the host is applied to what was read, and has its effects once it has answered
  · dsimp only
    cases f (a.inputs.map (Operand.value s.registers)) <;> rfl
  · rfl

theorem Source.on_execute (ops : Operations) (source : Source) (s : State) :
    (source.execute ops).on s = whole s (source.run ops s) := by
  cases source with
  | operand o => rfl
  | apply a => exact a.on_execute ops s

theorem State.on_pop (s : State) :
    State.InPlace.pop.on s = whole s (s.stack.pop.map fun (v, stack) => (v, { s with stack })) := by
  rw [State.InPlace.pop, on_within, Stack.InPlace.on_pop]
  cases s.stack.pop <;> rfl

namespace Action

variable {ops : Operations} {size here : Nat} {s s' : State} {f : Fault}

/-- **An action is performed as a whole or not at all.** -/
theorem on_execute (ops : Operations) (size here : Nat) (action : Action) (s : State) :
    (action.execute ops size here).on s =
      whole s ((action.run ops size here s).map fun s' => ((), s')) := by
  cases action with
  | assign target source =>
      simp only [execute, run, on_bind, Source.on_execute]
      cases source.run ops s <;> rfl
  | test a =>
      simp only [execute, run, on_bind, Application.on_execute]
      cases a.run ops s <;> rfl
  | branch position =>
      simp only [execute, run, on_bind, on_get]
      split <;> rfl
  | goto position => rfl
  | gotoReg id =>
      simp only [execute, run, on_bind, on_get]
      cases s.registers.get id with
      | position p =>
          simp only [Value.position?]
          split <;> rfl
      | unassigned | number | bool | symbol => rfl
  | save id => rfl
  | restore id =>
      simp only [execute, run, on_bind, State.on_pop]
      cases s.stack.pop <;> rfl
  | perform a =>
      simp only [execute, run, on_bind, Application.on_execute]
      cases a.run ops s <;> rfl

/-- **An action that fails leaves the state as it was.** -/
theorem on_execute_eq_error_iff {action : Action} :
    (action.execute ops size here).on s = (.error f, s') ↔
      action.run ops size here s = .error f ∧ s' = s := by
  rw [on_execute, InPlace.whole_eq_error_iff, map_eq_error]

end Action

namespace Machine

variable {m m' : Machine}

/-- A line that is executed: the state is what the action makes of it, or what it was. -/
theorem step_eq (m : Machine) (size here : Nat) (line : Line) :
    m.step size here line = match line.action.run m.operations size here m.state with
      | .ok state => { m with state, steps := m.steps + 1 }
      | .error fault => { m with
          steps := m.steps + 1
          phase := .failed (.instruction here line.instruction fault) } := by
  simp only [step, Action.on_execute]
  cases line.action.run m.operations size here m.state <;> rfl

/-! ## Requests -/

theorem InPlace.on_configurable (m : Machine) : configurable.on m = (m.configurable, m) := by
  simp only [configurable, on_bind, on_get, on_ofExcept]

theorem InPlace.on_allocate (m : Machine) (name : String) :
    (InPlace.allocate name).on m =
      whole m ((m.allocate name).map fun m' => (m.state.registers.size, m')) := by
  simp only [InPlace.allocate, Machine.allocate, on_bind, on_configurable]
  cases m.configurable with
  | error e => rfl
  | ok =>
      dsimp only
      rw [on_within, Registers.InPlace.on_allocate]
      cases m.state.registers.allocate name <;> rfl

/-- Bindings are taken in one after the other, and none of them can fail. -/
theorem on_forM_install (m : Machine) (bindings : List Binding) :
    (forM bindings fun b => modify fun m => { m with operations := m.operations.install b } :
        InPlace Machine ConfigError Unit).on m =
      (.ok (), { m with operations := m.operations.installAll bindings }) := by
  induction bindings generalizing m with
  | nil => rfl
  | cons b bs ih =>
      rw [List.forM_cons, on_bind, on_modify]
      exact ih { m with operations := m.operations.install b }

theorem InPlace.on_install (m : Machine) (bindings : List Binding) :
    (InPlace.install bindings).on m = whole m ((m.install bindings).map fun m' => ((), m')) := by
  simp only [InPlace.install, Machine.install, on_bind, on_configurable, on_forM_install]
  cases m.configurable <;> rfl

theorem InPlace.on_setProgram (m : Machine) (controller : List Item) :
    (InPlace.setProgram controller).on m =
      whole m ((m.setProgram controller).map fun m' => ((), m')) := by
  simp only [InPlace.setProgram, Machine.setProgram, on_bind, on_configurable, on_get, on_ofExcept]
  cases m.configurable with
  | error e => rfl
  | ok =>
      dsimp only
      cases Program.ofController m.state.registers m.operations controller <;> rfl

theorem InPlace.on_setRegister (m : Machine) (name : String) (v : Value) :
    (InPlace.setRegister name v).on m =
      whole m ((m.setRegister name v).map fun m' => ((), m')) := by
  simp only [InPlace.setRegister, Machine.setRegister, Registers.set?, on_bind, on_get]
  cases m.state.registers.lookup name <;> rfl

/-- **A request is carried out as a whole or not at all.** -/
theorem InPlace.on_apply (m : Machine) (r : Request) :
    (InPlace.apply r).on m = whole m ((m.apply r).map fun m' => ((), m')) := by
  cases r with
  | allocate name =>
      simp only [InPlace.apply, Machine.apply, on_bind, InPlace.on_allocate]
      cases m.allocate name <;> rfl
  | install bindings => exact InPlace.on_install m bindings
  | program controller => exact InPlace.on_setProgram m controller
  | set name v => exact InPlace.on_setRegister m name v

theorem InPlace.on_apply_eq_ok_iff {r : Request} :
    (InPlace.apply r).on m = (.ok (), m') ↔ m.apply r = .ok m' := by
  rw [on_apply, InPlace.whole_eq_ok_iff]

/-- **A request that is refused leaves the machine as it was**, with any earlier program. -/
theorem InPlace.on_apply_eq_error_iff {r : Request} {e : ConfigError} :
    (InPlace.apply r).on m = (.error e, m') ↔ m.apply r = .error e ∧ m' = m := by
  rw [on_apply, InPlace.whole_eq_error_iff, map_eq_error]

/-! ## Starts -/

/-- **A start is made as a whole or not at all.** -/
theorem InPlace.on_start (m : Machine) :
    InPlace.start.on m = whole m (m.start.map fun m' => ((), m')) := by
  rcases m with ⟨settings, operations, program, phase, steps, state⟩
  cases phase with
  | configuring => cases program <;> rfl
  | running | halted | failed => rfl

theorem InPlace.on_start_eq_ok_iff : InPlace.start.on m = (.ok (), m') ↔ m.start = .ok m' := by
  rw [on_start, InPlace.whole_eq_ok_iff]

/-- **A start that is refused leaves the machine as it was.** -/
theorem InPlace.on_start_eq_error_iff {e : RunError} :
    InPlace.start.on m = (.error e, m') ↔ m.start = .error e ∧ m' = m := by
  rw [on_start, InPlace.whole_eq_error_iff, map_eq_error]

end Machine

end RegisterMachine
