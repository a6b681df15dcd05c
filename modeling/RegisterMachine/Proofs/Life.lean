import RegisterMachine.Proofs.Bindings
import RegisterMachine.Proofs.Registers
import RegisterMachine.Proofs.Success
import RegisterMachine.Proofs.Untraced

/-!
# The life of a machine

A machine is called upon from outside, any number of times and with or without success, is started,
and then turns by itself. This file says once what each of these can do to a machine: a call that is
refused does nothing, a call that is carried out does one of five things, and a turn does one of
four. Every invariant of a machine's life is an induction over these cases.
-/

namespace RegisterMachine

/-- What can be asked of a machine from outside, the change of its settings included. -/
inductive Call where
  | request (r : Request)
  | configure (settings : Settings)

namespace Machine

/-- The machine that a request leaves, whether it is carried out or refused. -/
def attempt (m : Machine) (r : Request) : Machine := ((InPlace.apply r).on m).2

def call (m : Machine) : Call → Machine
  | .request r => m.attempt r
  | .configure settings => { m with settings }

def callAll (m : Machine) (calls : List Call) : Machine := calls.foldl call m

/-! ## Calls -/

variable {m m' : Machine}

theorem configurable_eq_ok (h : m.configurable = .ok ()) : m.phase = .configuring := by
  unfold configurable at h
  split at h
  · assumption
  all_goals exact absurd h (by simp)

theorem configurable_of (h : m.phase = .configuring) : m.configurable = .ok () := by
  unfold configurable
  rw [h]

/-- What a request that is carried out does. All but the last are carried out only while the machine
is put together. -/
inductive Carried (m : Machine) : Request → Machine → Prop where
  | allocate {name : String} {registers : Registers} (hph : m.phase = .configuring)
      (h : m.state.registers.allocate name = .ok registers) :
      Carried m (.allocate name) { m with state := { m.state with registers } }
  | install {bindings : List Binding} (hph : m.phase = .configuring) :
      Carried m (.install bindings) { m with operations := m.operations.installAll bindings }
  | program {items : List Item} {p : Program} (hph : m.phase = .configuring)
      (h : Program.ofController m.state.registers m.operations items = .ok p) :
      Carried m (.program items) { m with program := some p }
  | set {name : String} {id : Nat} {v : Value} (h : m.state.registers.lookup name = some id) :
      Carried m (.set name v) { m with state := m.state.set id v }

/-- **Requests, taken apart.** -/
theorem apply_eq_ok {r : Request} (h : m.apply r = .ok m') : Carried m r m' := by
  cases r with
  | allocate name =>
      obtain ⟨_, hc, h⟩ := bind_eq_ok.mp h
      obtain ⟨registers, ha, h⟩ := bind_eq_ok.mp h
      rw [← Except.ok.inj h]
      exact Carried.allocate (configurable_eq_ok hc) ha
  | install bindings =>
      obtain ⟨_, hc, h⟩ := bind_eq_ok.mp h
      rw [← Except.ok.inj h]
      exact Carried.install (configurable_eq_ok hc)
  | program items =>
      obtain ⟨_, hc, h⟩ := bind_eq_ok.mp h
      obtain ⟨p, hp, h⟩ := bind_eq_ok.mp h
      rw [← Except.ok.inj h]
      exact Carried.program (configurable_eq_ok hc) hp
  | set name v =>
      have h : m.setRegister name v = .ok m' := h
      unfold setRegister Registers.set? at h
      cases hl : m.state.registers.lookup name with
      | none => rw [hl] at h; exact absurd h (by simp)
      | some id =>
          rw [hl] at h
          rw [← Except.ok.inj h]
          exact Carried.set hl

theorem apply_set_of_lookup {name : String} {id : Nat} {v : Value}
    (h : m.state.registers.lookup name = some id) :
    m.apply (.set name v) = .ok { m with state := m.state.set id v } := by
  show m.setRegister name v = _
  unfold setRegister Registers.set?
  rw [h]
  rfl

theorem apply_set_of_lookup_none {name : String} {v : Value}
    (h : m.state.registers.lookup name = none) :
    m.apply (.set name v) = .error (.noSuchRegister name) := by
  show m.setRegister name v = _
  unfold setRegister Registers.set?
  rw [h]
  rfl

theorem attempt_ok {r : Request} (h : m.apply r = .ok m') : m.attempt r = m' := by
  unfold attempt
  rw [InPlace.on_apply, h]
  rfl

theorem attempt_error {r : Request} {e : ConfigError} (h : m.apply r = .error e) :
    m.attempt r = m := by
  unfold attempt
  rw [InPlace.on_apply, h]
  rfl

/-- **Calls, taken apart**: a call changes the settings, carries a request out, or does nothing. -/
theorem call_cases (m : Machine) (c : Call) :
    (∃ settings, m.call c = { m with settings })
      ∨ (∃ r, Carried m r (m.call c))
      ∨ m.call c = m := by
  cases c with
  | configure settings => exact Or.inl ⟨settings, rfl⟩
  | request r =>
      cases h : m.apply r with
      | error e => exact Or.inr (Or.inr (attempt_error h))
      | ok m' =>
          refine Or.inr (Or.inl ⟨r, ?_⟩)
          show Carried m r (m.attempt r)
          rw [attempt_ok h]
          exact apply_eq_ok h

/-- What every call keeps, every sequence of calls keeps. -/
theorem callAll_induction {P : Machine → Prop} (hcall : ∀ m c, P m → P (m.call c))
    (h : P m) (calls : List Call) : P (m.callAll calls) := by
  induction calls generalizing m with
  | nil => exact h
  | cons c calls ih => exact ih (hcall m c h)

/-- A start that succeeds finds a program and puts the counter to the first instruction. -/
theorem start_eq_ok (h : m.start = .ok m') :
    m.phase = .configuring ∧ (∃ p, m.program = some p)
      ∧ m' = { m with phase := .running, state := m.state.jump 0 } := by
  unfold start at h
  split at h
  · next p hph hp => exact ⟨hph, ⟨p, hp⟩, (Except.ok.inj h).symm⟩
  all_goals exact absurd h (by simp)

/-! ## Turns -/

theorem idle_eq_false (h : m.phase = .running) : m.idle = false := by
  unfold idle
  rw [h]

theorem phase_eq_running (h : m.idle = false) : m.phase = .running := by
  unfold idle at h
  split at h
  · assumption
  all_goals exact absurd h (by simp)

/-- A machine that is not running does not turn. -/
theorem tick_of_idle (h : m.idle = true) : m.tick = m := by
  unfold tick
  split
  · next hph _ => rw [idle_eq_false hph] at h; exact absurd h (by simp)
  · rfl

theorem runFor_of_idle (h : m.idle = true) (n : Nat) : m.runFor n = m := by
  cases n with
  | zero => rfl
  | succ n => rw [runFor, if_pos h]

/-- A run is one turn after the other, whether or not it ends on the way. -/
theorem runFor_succ (m : Machine) (n : Nat) : m.runFor (n + 1) = m.tick.runFor n := by
  rw [runFor]
  cases h : m.idle with
  | false => rfl
  | true => rw [if_pos rfl, tick_of_idle h, runFor_of_idle h]

/-- What every turn keeps, every run keeps. -/
theorem runFor_induction {P : Machine → Prop} (htick : ∀ m, P m → P m.tick)
    (h : P m) (n : Nat) : P (m.runFor n) := by
  induction n generalizing m with
  | zero => exact h
  | succ n ih => rw [runFor_succ]; exact ih (htick m h)

/-- What a turn of a running machine does, where `here` is the position that its counter holds. -/
inductive Turn (m : Machine) (p : Program) (here : Nat) : Machine → Prop where
  /-- The counter points behind the last line. -/
  | finish (h : p.lines[here]? = none) : Turn m p here m.finish
  | exhausted {line : Line} {limit : Nat} (hl : p.lines[here]? = some line)
      (h : m.exhausted = some limit) :
      Turn m p here { m with phase := .failed (.stepLimit limit) }
  | fault {line : Line} {f : Fault} (hl : p.lines[here]? = some line)
      (hx : m.exhausted = none) (h : line.action.run m.operations p.size here m.state = .error f) :
      Turn m p here
        { m with steps := m.steps + 1, phase := .failed (.instruction here line.instruction f) }
  | step {line : Line} {state : State} (hl : p.lines[here]? = some line)
      (hx : m.exhausted = none) (h : line.action.run m.operations p.size here m.state = .ok state) :
      Turn m p here { m with state, steps := m.steps + 1 }

section Turns

variable {p : Program} {here : Nat} {line : Line}

/-- A turn behind the last line. -/
theorem tick_end (hph : m.phase = .running) (hp : m.program = some p)
    (hc : m.state.registers.get Registers.counter = .position here)
    (hl : p.lines[here]? = none) : m.tick = m.finish := by
  simp only [tick, hph, hp, hc, hl]

/-- A turn when no step is left. -/
theorem tick_exhausted {limit : Nat} (hph : m.phase = .running) (hp : m.program = some p)
    (hc : m.state.registers.get Registers.counter = .position here)
    (hl : p.lines[here]? = some line) (hx : m.exhausted = some limit) :
    m.tick = { m with phase := .failed (.stepLimit limit) } := by
  simp only [tick, hph, hp, hc, hl, hx]

/-- A turn at a line of the program. -/
theorem tick_line (hph : m.phase = .running) (hp : m.program = some p)
    (hc : m.state.registers.get Registers.counter = .position here)
    (hl : p.lines[here]? = some line) (hx : m.exhausted = none) :
    m.tick = m.step p.size here line := by
  simp only [tick, hph, hp, hc, hl, hx]

/-- **Turns, taken apart.** -/
theorem tick_turn (hph : m.phase = .running) (hp : m.program = some p)
    (hc : m.state.registers.get Registers.counter = .position here) : Turn m p here m.tick := by
  cases hl : p.lines[here]? with
  | none => rw [tick_end hph hp hc hl]; exact Turn.finish hl
  | some line =>
      cases hx : m.exhausted with
      | some limit => rw [tick_exhausted hph hp hc hl hx]; exact Turn.exhausted hl hx
      | none =>
          rw [tick_line hph hp hc hl hx]
          rw [step_eq]
          cases hr : line.action.run m.operations p.size here m.state with
          | ok state => exact Turn.step hl hx hr
          | error f => exact Turn.fault hl hx hr

end Turns

end Machine

end RegisterMachine
