import RegisterMachine.Machine.Step
import RegisterMachine.Proofs.Registers
import RegisterMachine.Proofs.Success

/-!
# What performing an action does

An action that does not fail ends in one of nine ways, and always with a jump. As for resolution,
the ways are listed once, together with everything that was read or checked; the frame lemmas behind
the list say what no action ever touches.
-/

namespace RegisterMachine

namespace State

@[simp] theorem set_registers (s : State) (id : Nat) (v : Value) :
    (s.set id v).registers = s.registers.set id v := rfl

@[simp] theorem jump_registers (s : State) (k : Nat) :
    (s.jump k).registers = s.registers.set Registers.counter (.position k) := rfl

end State

variable {ops : Operations} {s s' : State} {v : Value}

/-! ## Applications -/

/-- What an operation that answers does: it empties the stack, or it is a function of the host and
leaves its effects on the tape. -/
inductive Application.Answers (ops : Operations) (a : Application) (s : State) :
    Value → State → Prop where
  | initializeStack {name : String} (h : ops.get? a.op = some ⟨name, .initializeStack⟩) :
      Answers ops a s .unassigned { s with stack := .empty }
  | host {name : String} {f : Host} {reply : Reply} (h : ops.get? a.op = some ⟨name, .host f⟩)
      (hf : f (a.inputs.map (Operand.value s.registers)) = .ok reply) :
      Answers ops a s reply.value { s with tape := s.tape ++ reply.effects }

theorem Application.run_eq_ok {a : Application} (h : a.run ops s = .ok (v, s')) :
    a.Answers ops s v s' := by
  unfold Application.run at h
  split at h
  · exact absurd h (by simp)
  · next name hb =>
      obtain ⟨rfl, rfl⟩ := Prod.mk.inj (Except.ok.inj h)
      exact Answers.initializeStack hb
  · next name f hb =>
      split at h
      · next reply hf =>
          obtain ⟨rfl, rfl⟩ := Prod.mk.inj (Except.ok.inj h)
          exact Answers.host hb hf
      · exact absurd h (by simp)

/-- **No operation touches a register.** -/
theorem Application.Answers.registers {a : Application} (h : a.Answers ops s v s') :
    s'.registers = s.registers := by
  cases h with
  | initializeStack => rfl
  | host => rfl

theorem Source.run_registers {source : Source} (h : source.run ops s = .ok (v, s')) :
    s'.registers = s.registers := by
  cases source with
  | operand o => obtain ⟨_, rfl⟩ := Prod.mk.inj (Except.ok.inj h); rfl
  | apply a => exact (Application.run_eq_ok h).registers

/-! ## Actions -/

namespace Action

/-- What an action that does not fail does, at position `here` of a program of the given size. -/
inductive Performs (ops : Operations) (size here : Nat) (s : State) : Action → State → Prop where
  | assign {id : Nat} {source : Source} {v : Value} {t : State}
      (h : source.run ops s = .ok (v, t)) :
      Performs ops size here s (.assign id source) ((t.set id v).jump (here + 1))
  | test {a : Application} {v : Value} {t : State} (h : a.Answers ops s v t) :
      Performs ops size here s (.test a)
        ((t.set Registers.flag (.bool v.isTrue)).jump (here + 1))
  | branch {p : Nat} (h : (s.registers.get Registers.flag).isTrue = true) :
      Performs ops size here s (.branch p) (s.jump p)
  | pass {p : Nat} (h : (s.registers.get Registers.flag).isTrue = false) :
      Performs ops size here s (.branch p) (s.jump (here + 1))
  | goto {p : Nat} : Performs ops size here s (.goto p) (s.jump p)
  | gotoReg {id p : Nat} (h : s.registers.get id = .position p) (hp : p ≤ size) :
      Performs ops size here s (.gotoReg id) (s.jump p)
  | save {id : Nat} :
      Performs ops size here s (.save id)
        ({ s with stack := s.stack.push (s.registers.get id) }.jump (here + 1))
  | restore {id : Nat} {v : Value} {stack : Stack} (h : s.stack.pop = .ok (v, stack)) :
      Performs ops size here s (.restore id) (({ s with stack }.set id v).jump (here + 1))
  | perform {a : Application} {v : Value} {t : State} (h : a.Answers ops s v t) :
      Performs ops size here s (.perform a) (t.jump (here + 1))

/-- **Actions, taken apart.** -/
theorem run_eq_ok {size here : Nat} {action : Action}
    (h : action.run ops size here s = .ok s') : action.Performs ops size here s s' := by
  cases action with
  | assign id source =>
      obtain ⟨⟨v, t⟩, hr, h⟩ := bind_eq_ok.mp h
      rw [← Except.ok.inj h]
      exact Performs.assign hr
  | test a =>
      obtain ⟨⟨v, t⟩, hr, h⟩ := bind_eq_ok.mp h
      rw [← Except.ok.inj h]
      exact Performs.test (Application.run_eq_ok hr)
  -- the two ways to branch differ in where they lead
  | branch p =>
      rw [← Except.ok.inj h]
      cases hf : (s.registers.get Registers.flag).isTrue with
      | true => rw [if_pos rfl]; exact Performs.branch hf
      | false => rw [if_neg (by simp)]; exact Performs.pass hf
  | goto p => rw [← Except.ok.inj h]; exact Performs.goto
  | gotoReg id =>
      simp only [run] at h
      split at h
      · next p hp =>
          split at h
          · next hle => rw [← Except.ok.inj h]; exact Performs.gotoReg hp hle
          · exact absurd h (by simp)
      · exact absurd h (by simp)
  | save id => rw [← Except.ok.inj h]; exact Performs.save
  | restore id =>
      obtain ⟨⟨v, stack⟩, hr, h⟩ := bind_eq_ok.mp h
      rw [← Except.ok.inj h]
      exact Performs.restore hr
  | perform a =>
      obtain ⟨⟨v, t⟩, hr, h⟩ := bind_eq_ok.mp h
      rw [← Except.ok.inj h]
      exact Performs.perform (Application.run_eq_ok hr)

/-! ## Frames -/

/-- **No action adds, removes or renames a register.** -/
theorem Performs.frame {size here : Nat} {action : Action}
    (h : action.Performs ops size here s s') :
    s'.registers.size = s.registers.size
      ∧ ∀ name, s'.registers.lookup name = s.registers.lookup name := by
  cases h with
  | assign h => simp [Source.run_registers h]
  | test h => simp [h.registers]
  | perform h => simp [h.registers]
  | branch | pass | goto | gotoReg | save | restore => simp

end Action

end RegisterMachine
