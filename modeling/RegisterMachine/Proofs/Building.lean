import RegisterMachine.Proofs.Life

/-!
# Machines built from descriptions

Building a machine is a list of requests to a new one. Only three of the things that happen on the
way can go wrong or leave a trace: registers are allocated one by one, operations are installed, and
the controller becomes a program for the tables that have come about. `build_eq` says just that, so
that nothing later has to follow the requests.
-/

namespace RegisterMachine

/-- Adds registers one after the other. -/
def Registers.allocateAll (r : Registers) : List String → Except ConfigError Registers
  | [] => .ok r
  | name :: names => do (← r.allocate name).allocateAll names

namespace Registers

variable {r r' : Registers}

theorem Standard.allocateAll {names : List String} (hs : r.Standard)
    (h : r.allocateAll names = .ok r') : r'.Standard := by
  induction names generalizing r with
  | nil => rw [← Except.ok.inj h]; exact hs
  | cons name names ih =>
      obtain ⟨q, ha, hq⟩ := bind_eq_ok.mp h
      exact ih (hs.allocate ha) hq

/-- **Registers that were just allocated are unassigned**, and the others are as they were. -/
theorem get?_allocateAll {names : List String} (h : r.allocateAll names = .ok r')
    (other : String) :
    r'.get? other = if other ∈ names then some .unassigned else r.get? other := by
  induction names generalizing r with
  | nil => rw [← Except.ok.inj h]; simp
  | cons name names ih =>
      obtain ⟨q, ha, hq⟩ := bind_eq_ok.mp h
      rw [ih hq, get?_allocate ha]
      by_cases hm : other ∈ names
      · rw [if_pos hm, if_pos (List.mem_cons_of_mem name hm)]
      · rw [if_neg hm]
        by_cases he : other = name
        · rw [if_pos he, if_pos (List.mem_cons.mpr (Or.inl he))]
        · rw [if_neg he, if_neg]
          intro hmem
          rcases List.mem_cons.mp hmem with h' | h'
          · exact he h'
          · exact hm h'

/-- What exists cannot be allocated. -/
theorem not_mem_of_allocateAll {names : List String} {name : String}
    (h : r.allocateAll names = .ok r') (hl : (r.lookup name).isSome) : name ∉ names := by
  induction names generalizing r with
  | nil => exact List.not_mem_nil
  | cons n names ih =>
      obtain ⟨q, ha, hq⟩ := bind_eq_ok.mp h
      have hne : name ≠ n := by
        intro he
        rw [he, (allocate_eq_ok ha).1] at hl
        exact absurd hl (by simp)
      have hl' : (q.lookup name).isSome := by
        rw [lookup_allocate ha, if_neg hne]
        exact hl
      intro hmem
      rcases List.mem_cons.mp hmem with h' | h'
      · exact hne h'
      · exact ih hq hl' h'

end Registers

/-! ## Requests in turn -/

namespace Machine

theorem applyAll_append (m : Machine) (rs rs' : List Request) :
    m.applyAll (rs ++ rs') = (do (← m.applyAll rs).applyAll rs') := by
  induction rs generalizing m with
  | nil => rfl
  | cons r rs ih =>
      show (m.apply r >>= fun m' => m'.applyAll (rs ++ rs')) = _
      rw [funext fun m' => ih m']
      show _ = ((m.apply r >>= fun m' => m'.applyAll rs) >>= fun m' => m'.applyAll rs')
      cases m.apply r with
      | error e => rfl
      | ok m' => rfl

theorem applyAll_allocate {m : Machine} (hph : m.phase = .configuring) (names : List String) :
    m.applyAll (names.map .allocate) =
      (do
        let registers ← m.state.registers.allocateAll names
        return { m with state := { m.state with registers } }) := by
  induction names generalizing m with
  | nil => rfl
  | cons name names ih =>
      show (m.allocate name >>= fun m' => m'.applyAll (names.map .allocate)) = _
      unfold allocate
      rw [configurable_of hph]
      show _ = ((m.state.registers.allocate name >>= fun q => q.allocateAll names) >>= _)
      cases m.state.registers.allocate name with
      | error e => rfl
      | ok q => exact ih (m := { m with state := { m.state with registers := q } }) hph

end Machine

namespace Description

/-- **Building, in three steps.** The registers are allocated, and the controller becomes a program
for these registers and for the operations that were installed. -/
theorem build_eq (d : Description) (bindings : List Binding) (settings : Settings) :
    d.build bindings settings =
      (do
        let registers ← Registers.initial.allocateAll d.registers
        let p ← Program.ofController registers (Operations.initial.installAll bindings) d.controller
        return { Machine.new settings with
          operations := Operations.initial.installAll bindings
          program := some p
          state := { State.initial with registers } }) := by
  -- the requests for registers come first, and those behind them touch no register
  unfold build requests
  rw [Machine.applyAll_append, Machine.applyAll_allocate rfl]
  show ((Registers.initial.allocateAll d.registers >>= _) >>= _) = _
  cases Registers.initial.allocateAll d.registers with
  | error e => rfl
  | ok registers =>
      show (Program.ofController registers (Operations.initial.installAll bindings) d.controller
          >>= _) >>= _
        = Program.ofController registers (Operations.initial.installAll bindings) d.controller >>= _
      cases Program.ofController registers (Operations.initial.installAll bindings) d.controller with
      | error e => rfl
      | ok p => rfl

end Description

end RegisterMachine
