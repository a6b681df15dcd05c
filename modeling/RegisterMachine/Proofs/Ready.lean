import RegisterMachine.Proofs.Building
import RegisterMachine.Proofs.Meaning

/-!
# Machines that are ready to start

A machine that was built has nothing in its registers. Before it is started registers can be set, any
number of times, and nothing but their contents is changed by that. What is certain of such a
machine, whatever was set, is listed once (`Made`); only what its registers hold is left to say.
-/

namespace RegisterMachine

/-- A change of content is read where it was made, or not at all. -/
theorem Registers.get_set_cases (r : Registers) (id : Nat) (v : Value) (other : Nat) :
    (r.set id v).get other = v ∨ (r.set id v).get other = r.get other := by
  by_cases ho : id = other
  · subst ho
    by_cases hid : id < r.size
    · exact Or.inl (get_set_self hid v)
    · have hlen : r.cells.length ≤ id := Nat.le_of_not_lt hid
      exact Or.inr (by simp [get, set, hlen])
  · exact Or.inr (get_set_of_ne ho v)

theorem Registers.get_initial (id : Nat) : initial.get id = .unassigned := by
  unfold get initial
  rcases id with _ | _ | id
  · rfl
  · rfl
  · rfl

/-- Registers that are allocated are unassigned, and no content is changed. -/
theorem Registers.get_allocateAll {r r' : Registers} {names : List String}
    (h : r.allocateAll names = .ok r') (id : Nat) : r'.get id = r.get id := by
  induction names generalizing r with
  | nil => rw [← Except.ok.inj h]
  | cons name names ih =>
      obtain ⟨q, ha, hq⟩ := bind_eq_ok.mp h
      rw [ih hq, get_allocate ha]

namespace Machine

variable {m m' : Machine} {settings : Settings}

/-! ## Starting -/

/-- The machine that a start makes of one that it does not refuse. -/
def begun (m : Machine) : Machine := { m with phase := .running, state := m.state.jump 0 }

/-- A machine that has a program and has not been started. -/
structure Loaded (p : Program) (m : Machine) : Prop where
  covered : m.Covered
  settled : m.Settled
  phase : m.phase = .configuring
  program : m.program = some p

/-- **A machine that is ready can be started.** -/
theorem Loaded.start {p : Program} (h : m.Loaded p) :
    m.start = .ok m.begun ∧ m.begun.Placed p ∧ m.begun.Settled := by
  have hs : m.start = .ok m.begun := start_of_program h.phase h.program
  obtain ⟨q, hq, hplaced⟩ := h.covered.start hs
  have hqp : q = p := Option.some.inj (hq.symm.trans h.program)
  rw [hqp] at hplaced
  exact ⟨hs, hplaced, h.settled.start hs⟩

/-! ## Setting registers -/

/-- Sets registers one after the other. A name that no register has is passed over. -/
def setAll (m : Machine) (sets : List (String × Value)) : Machine :=
  m.callAll (sets.map fun set => .request (.set set.1 set.2))

theorem attempt_set_cases (m : Machine) (name : String) (v : Value) :
    (∃ id, m.state.registers.lookup name = some id
        ∧ m.attempt (.set name v) = { m with state := m.state.set id v })
      ∨ m.state.registers.lookup name = none ∧ m.attempt (.set name v) = m := by
  cases hl : m.state.registers.lookup name with
  | none => exact Or.inr ⟨rfl, attempt_error (apply_set_of_lookup_none hl)⟩
  | some id => exact Or.inl ⟨id, rfl, attempt_ok (apply_set_of_lookup hl)⟩

/-- A register that is set is all that changes. -/
theorem attempt_set_eq (m : Machine) (name : String) (v : Value) :
    ∃ registers, m.attempt (.set name v) = { m with state := { m.state with registers } } := by
  rcases attempt_set_cases m name v with ⟨id, _, hm⟩ | ⟨_, hm⟩
  · exact ⟨_, hm⟩
  · exact ⟨m.state.registers, hm⟩

/-- **A register that is set, seen by name.** -/
theorem register?_attempt_set (m : Machine) (name : String) (v : Value) (other : String) :
    (m.attempt (.set name v)).register? other =
      if other = name then (m.register? name).map fun _ => v else m.register? other := by
  rcases attempt_set_cases m name v with ⟨id, hl, hm⟩ | ⟨hl, hm⟩
  · rw [hm]
    show (m.state.registers.set id v).get? other = _
    rw [Registers.get?_set hl]
    unfold register?
    rw [Registers.get?_eq_some hl]
    rfl
  · rw [hm]
    unfold register? Registers.get?
    by_cases ho : other = name
    · rw [if_pos ho, ho, hl]; rfl
    · rw [if_neg ho]

/-! ## From the description to the start -/

theorem callAll_of_applyAll {rs : List Request} (h : m.applyAll rs = .ok m') :
    m.callAll (rs.map .request) = m' := by
  induction rs generalizing m with
  | nil => exact Except.ok.inj h
  | cons r rs ih =>
      obtain ⟨m₁, hr, hrs⟩ := bind_eq_ok.mp h
      show (m.attempt r).callAll (rs.map .request) = m'
      rw [attempt_ok hr]
      exact ih hrs

theorem settled_callAll (settings : Settings) (calls : List Call) :
    ((new settings).callAll calls).Settled :=
  callAll_induction (P := Settled) (fun _ c h => h.call c) (settled_new settings) calls

/-- A machine that was made of a description and has not been started. -/
structure Made (d : Description) (bindings : List Binding) (settings : Settings) (m : Machine) :
    Prop where
  covered : m.Covered
  settled : m.Settled
  settings : m.settings = settings
  operations : m.operations = Operations.initial.installAll bindings
  program : ∃ p, m.program = some p ∧ p.instructions = Item.instructions d.controller
    ∧ p.labels = Labels.ofItems d.controller
  phase : m.phase = .configuring
  steps : m.steps = 0
  stack : m.state.stack = .empty
  tape : m.state.tape = #[]

variable {d : Description} {bindings : List Binding}

/-- **A machine that was just built**, with nothing in its registers. -/
theorem made_of_build (h : d.build bindings settings = .ok m) :
    m.Made d bindings settings ∧ (∀ id, m.state.registers.get id = .unassigned)
      ∧ ∀ name, m.register? name = if name = "pc" ∨ name = "flag" ∨ name ∈ d.registers then
          some .unassigned else none := by
  have hcalls := callAll_of_applyAll h
  have hcovered := covered_callAll settings ((d.requests bindings).map .request)
  have hsettled := settled_callAll settings ((d.requests bindings).map .request)
  rw [hcalls] at hcovered hsettled
  rw [Description.build_eq] at h
  obtain ⟨registers, hr, h⟩ := bind_eq_ok.mp h
  obtain ⟨p, hp, h⟩ := bind_eq_ok.mp h
  obtain rfl := Except.ok.inj h
  have hprogram : p.instructions = Item.instructions d.controller :=
    (Program.ofController_eq_ok hp).1
  refine ⟨⟨hcovered, hsettled, rfl, rfl, ⟨p, rfl, hprogram, Program.labels_ofController hp⟩, rfl,
    rfl, rfl, rfl⟩, ?_, ?_⟩
  · intro id
    exact (Registers.get_allocateAll hr id).trans (Registers.get_initial id)
  · intro name
    show registers.get? name = _
    rw [Registers.get?_allocateAll hr, Registers.get?_initial]
    by_cases hmem : name ∈ d.registers
    · simp [hmem]
    · simp [hmem]

theorem Made.set (h : m.Made d bindings settings) (name : String) (v : Value) :
    (m.attempt (.set name v)).Made d bindings settings := by
  have hcovered := h.covered.call (.request (.set name v))
  have hsettled := h.settled.call (.request (.set name v))
  have hcall : m.call (.request (.set name v)) = m.attempt (.set name v) := rfl
  rw [hcall] at hcovered hsettled
  rcases attempt_set_cases m name v with ⟨id, _, hm⟩ | ⟨_, hm⟩
  · rw [hm] at hcovered hsettled ⊢
    exact ⟨hcovered, hsettled, h.settings, h.operations, h.program, h.phase, h.steps, h.stack,
      h.tape⟩
  · rw [hm]
    exact h

theorem Made.setAll (h : m.Made d bindings settings) (sets : List (String × Value)) :
    (m.setAll sets).Made d bindings settings := by
  induction sets generalizing m with
  | nil => exact h
  | cons set sets ih => exact ih (h.set set.1 set.2)

/-- A machine that was made of a description has the instructions and labels of its controller. -/
theorem Made.loaded (h : m.Made d bindings settings) :
    ∃ p, m.Loaded p ∧ p.instructions = Item.instructions d.controller
      ∧ p.labels = Labels.ofItems d.controller := by
  obtain ⟨p, hp, hi, hl⟩ := h.program
  exact ⟨p, ⟨h.covered, h.settled, h.phase, hp⟩, hi, hl⟩

end Machine

end RegisterMachine
