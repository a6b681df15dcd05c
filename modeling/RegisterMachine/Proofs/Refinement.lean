import Mathlib
import RegisterMachine.Proofs.Bounds
import RegisterMachine.Proofs.Building
import RegisterMachine.Proofs.Interpreter

/-!
# The running machine means what the controller says

The machine executes actions made of numbers; the interpreter executes the controller as it is
written. Here the two are run side by side. What they have in common after every turn is `Agrees`:
the same contents under the same names, the same stack with the same counts, the same tape, the same
number of steps, and a counter that is the position of exactly the instructions the interpreter has
left.

The argument goes from the inside out: a name read here is a number read there (`Reads`), an input
is worth the same (`value_eq`), an operation answers the same (`apply_follows`), an instruction
does the same (`exec_follows`), and so does a turn and every number of turns. Each stage says that one
computation *follows* the other: both fail with the same fault, or both succeed with results that
agree, and the interpreter is never stuck.
-/

namespace RegisterMachine

/-! ## One computation following another -/

/-- The interpreter's result follows the machine's: they agree, or are the same fault. -/
inductive Follows {α β : Type} (R : α → β → Prop) : Except Fault α → Interpreter.Result β → Prop where
  | ok {a : α} {b : β} (h : R a b) : Follows R (.ok a) (.ok b)
  | fault (f : Fault) : Follows R (.error f) (.error (some f))

theorem Follows.of_ok {α β : Type} {R : α → β → Prop} {a : α} {y : Interpreter.Result β}
    (h : Follows R (.ok a) y) : ∃ b, y = .ok b ∧ R a b := by
  cases h with
  | ok h => exact ⟨_, rfl, h⟩

theorem Follows.of_error {α β : Type} {R : α → β → Prop} {f : Fault} {y : Interpreter.Result β}
    (h : Follows R (.error f) y) : y = .error (some f) := by
  cases h with
  | fault => rfl

/-- **Stage by stage.** -/
theorem Follows.bind {α β α' β' : Type} {R : α → β → Prop} {Q : α' → β' → Prop}
    {x : Except Fault α} {y : Interpreter.Result β}
    {f : α → Except Fault α'} {g : β → Interpreter.Result β'} (h : Follows R x y)
    (hf : ∀ a b, R a b → Follows Q (f a) (g b)) : Follows Q (x >>= f) (y >>= g) := by
  cases h with
  | ok h => exact hf _ _ h
  | fault e => exact Follows.fault e

/-! ## States that agree -/

variable {c : Interpreter}

/-- A state of the machine whose counter is `here` and a store of the interpreter that hold the
same. -/
structure State.Agrees (c : Interpreter) (here : Nat) (s : State) (t : Interpreter.Store) : Prop where
  standard : s.registers.Standard
  counter : s.registers.get Registers.counter = .position here
  le : here ≤ c.instructions.length
  rest : t.rest = c.instructions.drop here
  registers : ∀ name, name ≠ "pc" → s.registers.get? name = t.registers name
  /-- The interpreter keeps the counter apart. -/
  apart : t.registers "pc" = none
  stack : s.stack = t.stack
  tape : s.tape = t.tape

namespace State.Agrees

variable {s : State} {t : Interpreter.Store} {here : Nat} {name : String} {id : Nat}

theorem above_drop {k : Nat} (h : k ≤ c.instructions.length) :
    c.above (c.instructions.drop k) = k := by
  unfold Interpreter.above
  rw [List.length_drop]
  omega

theorem position_drop {k : Nat} (h : k ≤ c.instructions.length) :
    c.position (c.instructions.drop k) = .position k := by
  unfold Interpreter.position
  rw [above_drop h]

/-- **Reading by name is reading by number.** -/
theorem read_eq (h : s.Agrees c here t) (hl : s.registers.lookup name = some id) :
    c.read t name = .ok (s.registers.get id) := by
  unfold Interpreter.read
  -- the interpreter has no counter to look up: it says where its rest begins
  by_cases hpc : name = "pc"
  · have hid : id = Registers.counter := (h.standard.eq_pc hl).mpr hpc
    rw [if_pos hpc, h.rest, position_drop h.le, hid, h.counter]
  · rw [if_neg hpc, ← h.registers name hpc, Registers.get?_eq_some hl]
    rfl

/-- **Writing by name is writing by number**, in all registers but the counter. -/
theorem write_follows (h : s.Agrees c here t) (hl : s.registers.lookup name = some id)
    (hne : id ≠ Registers.counter) (v : Value) :
    Follows (State.Agrees c here) (.ok (s.set id v)) (t.write name v) := by
  have hpc : name ≠ "pc" := fun he => hne ((h.standard.eq_pc hl).mpr he)
  have hold : t.registers name = some (s.registers.get id) := by
    rw [← h.registers name hpc]
    exact Registers.get?_eq_some hl
  unfold Interpreter.Store.write
  rw [hold]
  refine Follows.ok ⟨h.standard.set id v, ?_, h.le, h.rest, ?_, ?_, h.stack, h.tape⟩
  · rw [State.set_registers, Registers.get_set_of_ne hne]
    exact h.counter
  · intro other ho
    show (s.registers.set id v).get? other = Interpreter.assign t.registers name v other
    rw [Registers.get?_set hl]
    by_cases he : other = name
    · rw [if_pos he, he, Interpreter.assign_self hold]
    · rw [if_neg he, Interpreter.assign_of_ne he]
      exact h.registers other ho
  · exact (Interpreter.assign_of_ne (Ne.symm hpc) v).trans h.apart

/-- A jump is going on with other instructions. -/
theorem goto (h : s.Agrees c here t) {k : Nat} (hk : k ≤ c.instructions.length) :
    (s.jump k).Agrees c k (t.goto (c.instructions.drop k)) where
  standard := h.standard.set _ _
  counter := State.counter_jump h.standard.counter_lt k
  le := hk
  rest := rfl
  registers other ho := by
    rw [State.jump_registers, Registers.get?_set h.standard.counter, if_neg ho]
    exact h.registers other ho
  apart := h.apart
  stack := h.stack
  tape := h.tape

theorem advance (h : s.Agrees c here t) (hlt : here < c.instructions.length) :
    (s.jump (here + 1)).Agrees c (here + 1) t.advance := by
  have hg := h.goto (k := here + 1) hlt
  unfold Interpreter.Store.advance
  rw [h.rest, List.tail_drop]
  exact hg

/-- The stack and the tape may be changed on both sides alike. -/
theorem with_stack (h : s.Agrees c here t) (stack : Stack) :
    State.Agrees c here { s with stack } { t with stack } :=
  ⟨h.standard, h.counter, h.le, h.rest, h.registers, h.apart, rfl, h.tape⟩

theorem with_tape (h : s.Agrees c here t) (tape : Array Effect) :
    State.Agrees c here { s with tape } { t with tape } :=
  ⟨h.standard, h.counter, h.le, h.rest, h.registers, h.apart, h.stack, rfl⟩

end State.Agrees

/-! ## Names that agree -/

/-- What the names in the controller stand for once the registers of a machine are fixed. -/
def Interpreter.scope (c : Interpreter) (registers : Registers) : Scope :=
  .of registers (Operations.initial.installAll c.bindings) (Labels.ofItems c.controller)

variable {s : State} {t : Interpreter.Store} {here : Nat}

/-- **A label leads to the rest behind it.** -/
theorem Interpreter.behind_eq {r : Registers} {name : String} {p : Nat}
    (h : (c.scope r).label name = some p) :
    p ≤ c.instructions.length ∧ c.behind name = .ok (c.instructions.drop p) := by
  have hl : (Labels.ofItems c.controller).lookup name = some p := h
  rw [Labels.lookup_ofItems] at hl
  refine ⟨Item.firstMark_le hl, ?_⟩
  unfold Interpreter.behind
  rw [Item.behind_eq_drop, hl]
  rfl

/-- **A number leads to the first binding of the name.** -/
theorem Interpreter.operation_eq {r : Registers} {name : String} {id : Nat}
    (h : (c.scope r).operation name = some id) :
    ∃ b, (Operations.initial.installAll c.bindings).get? id = some b
      ∧ c.operation name = .ok b.operation ∧ b.name = name := by
  obtain ⟨b, hb, hf, hn⟩ := Operations.get?_of_lookup h
  refine ⟨b, hb, ?_, hn⟩
  rw [Operations.find?_installAll] at hf
  unfold Interpreter.operation
  show found ((List.find? _ (Operations.initial.bindings ++ c.bindings)).map _) = _
  rw [hf]
  rfl

/-- An input is worth the same to both. -/
theorem Interpreter.value_eq (h : s.Agrees c here t) {e : Expr} {o : Operand}
    (he : e.Denotes (c.scope s.registers) o) : c.value t e = .ok (o.value s.registers) := by
  cases he with
  | const v => rfl
  | reg hl => exact h.read_eq hl
  | label hl =>
      obtain ⟨hle, hb⟩ := Interpreter.behind_eq hl
      show (do return c.position (← c.behind _)) = _
      rw [hb]
      show Except.ok (c.position (c.instructions.drop _)) = _
      rw [State.Agrees.position_drop hle]
      rfl

theorem Interpreter.mapM_value_eq (h : s.Agrees c here t) {es : List Expr} {os : List Operand}
    (hes : List.Forall₂ (Expr.Denotes (c.scope s.registers)) es os) :
    es.mapM (c.value t) = .ok (os.map (Operand.value s.registers)) := by
  induction hes with
  | nil => rfl
  | cons he _ ih =>
      rw [List.mapM_cons, Interpreter.value_eq h he, ih]
      rfl

/-! ## Computations that agree -/

/-- The same value in states that agree, with the registers of `s` untouched. -/
structure AgreesWith (c : Interpreter) (here : Nat) (s : State) (a : Value × State)
    (b : Value × Interpreter.Store) : Prop where
  value : a.1 = b.1
  state : a.2.Agrees c here b.2
  registers : a.2.registers = s.registers

/-- An operation answers the same. -/
theorem apply_follows (h : s.Agrees c here t) {name : String} {inputs : List Expr}
    {a : Application} (ha : a.Meant (c.scope s.registers) name inputs) :
    Follows (AgreesWith c here s) (a.run (Operations.initial.installAll c.bindings) s)
      (c.apply t name inputs) := by
  obtain ⟨⟨bname, operation⟩, hb, hop, rfl⟩ := Interpreter.operation_eq ha.op
  unfold Application.run Interpreter.apply
  rw [hb, hop]
  show Follows _ _ (inputs.mapM (c.value t) >>= _)
  rw [Interpreter.mapM_value_eq h ha.inputs]
  cases operation with
  | initializeStack => exact Follows.ok ⟨rfl, h.with_stack .empty, rfl⟩
  | host f =>
      dsimp only [bind, Except.bind]
      cases f (a.inputs.map (Operand.value s.registers)) with
      | error e => exact Follows.fault _
      | ok reply =>
          refine Follows.ok ⟨rfl, ?_, rfl⟩
          rw [← h.tape]
          exact h.with_tape (s.tape ++ reply.effects)

theorem evaluate_follows_operand (h : s.Agrees c here t) {e : Expr} {o : Operand}
    (he : e.Denotes (c.scope s.registers) o) :
    Follows (AgreesWith c here s) (.ok (o.value s.registers, s)) (c.evaluate t e) := by
  have hv := Interpreter.value_eq h he
  have hok : c.evaluate t e = .ok (o.value s.registers, t) := by
    cases he with
    | const v => rfl
    | reg hl =>
        show (do return (← c.value t _, t)) = _
        rw [hv]
        rfl
    | label hl =>
        show (do return (← c.value t _, t)) = _
        rw [hv]
        rfl
  rw [hok]
  exact Follows.ok ⟨rfl, h, rfl⟩

/-- States that agree, wherever the counter is. -/
def AgreeSomewhere (c : Interpreter) (s : State) (t : Interpreter.Store) : Prop :=
  ∃ k, s.Agrees c k t

theorem advance_follows (h : s.Agrees c here t) (hlt : here < c.instructions.length) :
    Follows (AgreeSomewhere c) (.ok (s.jump (here + 1))) (.ok t.advance) :=
  Follows.ok ⟨here + 1, h.advance hlt⟩

theorem goto_follows (h : s.Agrees c here t) {k : Nat} (hk : k ≤ c.instructions.length) :
    Follows (AgreeSomewhere c) (.ok (s.jump k)) (.ok (t.goto (c.instructions.drop k))) :=
  Follows.ok ⟨k, h.goto hk⟩

/-- The end of an instruction that writes a register. -/
theorem write_advance_follows (h : s.Agrees c here t) (hlt : here < c.instructions.length)
    {name : String} {id : Nat} (hl : s.registers.lookup name = some id)
    (hne : id ≠ Registers.counter) (v : Value) :
    Follows (AgreeSomewhere c) (.ok ((s.set id v).jump (here + 1)))
      (do let t ← t.write name v; return t.advance) :=
  Follows.bind (f := fun s' => .ok (s'.jump (here + 1))) (h.write_follows hl hne v)
    fun _ _ h' => advance_follows h' hlt

/-- **An instruction does what its action does.** -/
theorem exec_follows (h : s.Agrees c here t) (hlt : here < c.instructions.length)
    {i : Instruction} {action : Action} (hm : i.Means (c.scope s.registers) action) :
    Follows (AgreeSomewhere c)
      (action.run (Operations.initial.installAll c.bindings) c.instructions.length here s)
      (c.exec t i) := by
  cases hm with
  | @assign name id e o ht hne he =>
      refine Follows.bind (evaluate_follows_operand h he) ?_
      rintro ⟨v, s'⟩ ⟨w, t'⟩ ⟨hv, hs, hr⟩
      dsimp only at hv hs hr ⊢
      rw [← hv]
      exact write_advance_follows hs hlt (hr ▸ ht) hne v
  | @assignApply name op id inputs a ht hne ha =>
      refine Follows.bind (apply_follows h ha) ?_
      rintro ⟨v, s'⟩ ⟨w, t'⟩ ⟨hv, hs, hr⟩
      dsimp only at hv hs hr ⊢
      rw [← hv]
      exact write_advance_follows hs hlt (hr ▸ ht) hne v
  | @test op inputs a ha =>
      refine Follows.bind (apply_follows h ha) ?_
      rintro ⟨v, s'⟩ ⟨w, t'⟩ ⟨hv, hs, hr⟩
      dsimp only at hv hs hr ⊢
      rw [← hv]
      exact write_advance_follows hs hlt hs.standard.flag (by decide) _
  | @branch name p hl =>
      obtain ⟨hle, hb⟩ := Interpreter.behind_eq hl
      show Follows _ _ (do
        let v ← c.read t "flag"
        let rest ← c.behind name
        return if v.isTrue then t.goto rest else t.advance)
      rw [h.read_eq h.standard.flag, hb]
      -- one jump on this side whose target is chosen, a choice of two on the other
      show Follows (AgreeSomewhere c)
        (.ok (s.jump (if (s.registers.get Registers.flag).isTrue then p else here + 1)))
        (.ok (if (s.registers.get Registers.flag).isTrue then t.goto (c.instructions.drop p)
          else t.advance))
      cases (s.registers.get Registers.flag).isTrue with
      | true => exact goto_follows h hle
      | false => exact advance_follows h hlt
  | @goto name p hl =>
      obtain ⟨hle, hb⟩ := Interpreter.behind_eq hl
      show Follows _ _ (do return t.goto (← c.behind name))
      rw [hb]
      exact goto_follows h hle
  | @gotoReg name id hl =>
      simp only [Action.run, Interpreter.exec]
      rw [h.read_eq hl]
      dsimp only [bind, Except.bind]
      cases s.registers.get id with
      | position k =>
          dsimp only
          -- only here can a target lie beyond the end, as registers hold what they are given
          by_cases hk : k ≤ c.instructions.length
          · rw [if_pos hk, if_pos hk]; exact goto_follows h hk
          · rw [if_neg hk, if_neg hk]; exact Follows.fault _
      | unassigned => exact Follows.fault _
      | number n => exact Follows.fault _
      | bool b => exact Follows.fault _
      | symbol x => exact Follows.fault _
  | @save name id hl =>
      show Follows _ _ (do
        let v ← c.read t name
        return { t with stack := t.stack.push v }.advance)
      rw [h.read_eq hl, ← h.stack]
      exact advance_follows (h.with_stack _) hlt
  | @restore name id ht hne =>
      -- both pop the same stack, and an empty one is the same fault
      have hpop : Follows (fun a b => a = b) s.stack.pop (t.stack.pop.mapError some) := by
        rw [← h.stack]
        cases s.stack.pop with
        | error f => exact Follows.fault f
        | ok r => exact Follows.ok rfl
      refine Follows.bind hpop ?_
      rintro ⟨v, stack⟩ _ he
      rw [← he]
      exact write_advance_follows (h.with_stack stack) hlt ht hne v
  | @perform op inputs a ha =>
      refine Follows.bind (apply_follows h ha) ?_
      rintro ⟨v, s'⟩ ⟨w, t'⟩ ⟨hv, hs, hr⟩
      exact advance_follows hs hlt

/-! ## Runs that agree -/

/-- A running machine and an interpreter that have done the same: the registers hold the same under
every name, the counter is the position of what is left, and the stack with its counts, the tape, the
number of steps and the way the run has ended, if it has, are the same. -/
structure Machine.Agrees (c : Interpreter) (m : Machine) (r : Interpreter.Run) : Prop where
  registers : ∀ name, name ≠ "pc" → m.register? name = r.store.registers name
  counter : ∃ k ≤ c.instructions.length, m.register? "pc" = some (.position k)
    ∧ r.store.rest = c.instructions.drop k
  stack : m.state.stack = r.store.stack
  tape : m.state.tape = r.store.tape
  steps : m.steps = r.steps
  phase : m.phase = r.phase

namespace Machine

/-- A machine made of what the interpreter reads. -/
structure Compiled (c : Interpreter) (m : Machine) : Prop where
  settings : m.settings = c.settings
  operations : m.operations = Operations.initial.installAll c.bindings
  program : ∃ p, m.program = some p ∧ p.lines.toList.map Line.instruction = c.instructions
    ∧ ∀ l ∈ p.lines.toList, l.instruction.Means (c.scope m.state.registers) l.action

/-- A machine and an interpreter in the middle of a run. -/
structure InStep (c : Interpreter) (m : Machine) (r : Interpreter.Run) : Prop where
  compiled : m.Compiled c
  state : AgreeSomewhere c m.state r.store
  steps : m.steps = r.steps
  phase : m.phase = r.phase

variable {m : Machine} {r : Interpreter.Run}

/-- Only the names of the registers matter to what a machine was made of. -/
theorem Compiled.frame {state : State} {phase : Phase} {steps : Nat} (h : m.Compiled c)
    (hl : ∀ name, state.registers.lookup name = m.state.registers.lookup name) :
    Compiled c { m with state, phase, steps } := by
  have hscope : c.scope state.registers = c.scope m.state.registers := by
    unfold Interpreter.scope Scope.of
    rw [funext hl]
  obtain ⟨p, hp, hi, hm⟩ := h.program
  exact ⟨h.settings, h.operations, p, hp, hi, by rw [hscope]; exact hm⟩

/-- **One turn, side by side.** The interpreter is not stuck, and the two stay in step. -/
theorem InStep.tick (h : m.InStep c r) : ∃ r', c.step r = some r' ∧ m.tick.InStep c r' := by
  cases hidle : m.idle with
  | true =>
      refine ⟨r, Interpreter.step_of_idle ?_, ?_⟩
      · intro hr
        rw [idle_eq_false (h.phase.trans hr)] at hidle
        exact absurd hidle (by simp)
      · rw [tick_of_idle hidle]; exact h
  | false =>
      have hph := phase_eq_running hidle
      have hrph : r.phase = .running := h.phase.symm.trans hph
      obtain ⟨here, hs⟩ := h.state
      obtain ⟨p, hp, hi, hm⟩ := h.compiled.program
      have hsize : p.size = c.instructions.length := by
        rw [← hi, List.length_map, Array.length_toList]
        rfl
      have hexhausted : m.exhausted = c.settings.stepLimit.filter (· ≤ r.steps) := by
        unfold Machine.exhausted
        rw [h.compiled.settings, h.steps]
      -- whatever line the counter is at, the interpreter's rest begins with its instruction
      have hfollows : ∀ line, p.lines[here]? = some line →
          here < c.instructions.length
            ∧ r.store.rest = line.instruction :: c.instructions.drop (here + 1)
            ∧ Follows (AgreeSomewhere c) (line.action.run m.operations p.size here m.state)
                (c.exec r.store line.instruction) := by
        intro line hl
        have hget : c.instructions[here]? = some line.instruction := by
          rw [← hi, List.getElem?_map, Array.getElem?_toList, hl]
          rfl
        obtain ⟨hlt, hline⟩ := List.getElem?_eq_some_iff.mp hget
        refine ⟨hlt, ?_, ?_⟩
        · rw [hs.rest, List.drop_eq_getElem_cons hlt, hline]
        · rw [h.compiled.operations, hsize]
          exact exec_follows hs hlt (hm line (Program.mem_lines hl))
      have ht := tick_turn hph hp hs.counter
      generalize m.tick = m' at ht ⊢
      -- the four ways a turn can go: past the last line, out of steps, into a fault, or on
      cases ht with
      | finish hl =>
          have hend : here = c.instructions.length := by
            have hge := Array.getElem?_eq_none_iff.mp hl
            have hle := hs.le
            rw [← hsize] at hle ⊢
            exact Nat.le_antisymm hle hge
          have hrest : r.store.rest = [] := by
            rw [hs.rest, hend, List.drop_length]
          refine ⟨c.finish r, Interpreter.step_nil hrph hrest, ?_, ⟨here, hs⟩, h.steps, ?_⟩
          · exact h.compiled.frame (fun _ => rfl)
          · unfold Machine.finish Interpreter.finish
            rw [h.compiled.settings, hs.stack]
      | @exhausted line limit hl hx =>
          obtain ⟨_, hrest, _⟩ := hfollows line hl
          refine ⟨{ r with phase := .failed (.stepLimit limit) }, ?_, ?_, ⟨here, hs⟩, h.steps, rfl⟩
          · rw [Interpreter.step_cons hrph hrest, ← hexhausted, hx]
          · exact h.compiled.frame (fun _ => rfl)
      | @fault line f hl hx hr =>
          obtain ⟨_, hrest, hf⟩ := hfollows line hl
          rw [hr] at hf
          have habove : c.above r.store.rest = here := by
            rw [hs.rest]
            exact State.Agrees.above_drop hs.le
          refine ⟨{ r with
            steps := r.steps + 1
            phase := .failed (.instruction here line.instruction f) }, ?_, ?_, ⟨here, hs⟩, ?_, rfl⟩
          · rw [Interpreter.step_cons hrph hrest, ← hexhausted, hx, hf.of_error, habove]
          · exact h.compiled.frame (fun _ => rfl)
          · show m.steps + 1 = r.steps + 1
            rw [h.steps]
      | @step line state hl hx hr =>
          obtain ⟨_, hrest, hf⟩ := hfollows line hl
          rw [hr] at hf
          obtain ⟨store, hstore, hagree⟩ := hf.of_ok
          refine ⟨{ r with store, steps := r.steps + 1 }, ?_, ?_, hagree, ?_, h.phase⟩
          · rw [Interpreter.step_cons hrph hrest, ← hexhausted, hx, hstore]
          · exact h.compiled.frame (Action.run_eq_ok hr).frame.2
          · show m.steps + 1 = r.steps + 1
            rw [h.steps]

/-- **Any number of turns, side by side.** -/
theorem InStep.runFor (h : m.InStep c r) (n : Nat) :
    ∃ r', c.steps n r = some r' ∧ (m.runFor n).InStep c r' := by
  induction n generalizing m r with
  | zero => exact ⟨r, rfl, h⟩
  | succ n ih =>
      obtain ⟨r₁, hstep, h₁⟩ := h.tick
      obtain ⟨r₂, hsteps, h₂⟩ := ih h₁
      refine ⟨r₂, ?_, ?_⟩
      · show (c.step r).bind (c.steps n) = some r₂
        rw [hstep]
        exact hsteps
      · rw [runFor_succ]
        exact h₂

/-- What is in step has done the same. -/
theorem InStep.agrees (h : m.InStep c r) : m.Agrees c r := by
  obtain ⟨here, hs⟩ := h.state
  refine ⟨hs.registers, ⟨here, hs.le, ?_, hs.rest⟩, hs.stack, hs.tape, h.steps, h.phase⟩
  rw [← hs.counter]
  exact Registers.get?_eq_some hs.standard.counter

/-! ## The beginning of a run -/

/-- A machine and an interpreter before the start: the registers hold the same but for the counter,
which may hold anything. -/
structure Ready (c : Interpreter) (m : Machine) (initial : String → Option Value) : Prop where
  compiled : m.Compiled c
  standard : m.state.registers.Standard
  registers : ∀ name, name ≠ "pc" → m.register? name = initial name
  apart : initial "pc" = none
  stack : m.state.stack = .empty
  tape : m.state.tape = #[]
  steps : m.steps = 0
  phase : m.phase = .configuring

variable {initial : String → Option Value}

/-- **A machine that was just built** holds what the interpreter begins with. -/
theorem ready_of_build {d : Description} {bindings : List Binding} {settings : Settings}
    (h : d.build bindings settings = .ok m) :
    m.Ready (d.interpreter bindings settings) (Interpreter.initialRegisters d.registers []) := by
  rw [Description.build_eq] at h
  obtain ⟨q, hq, h⟩ := bind_eq_ok.mp h
  obtain ⟨p, hp, h⟩ := bind_eq_ok.mp h
  rw [← Except.ok.inj h]
  have hstd := Registers.standard_initial.allocateAll hq
  have hpc : "pc" ∉ d.registers := Registers.not_mem_of_allocateAll hq (by decide)
  refine ⟨⟨rfl, rfl, p, rfl, Program.ofController_eq_ok hp⟩, hstd, ?_, ?_, rfl, rfl, rfl, rfl⟩
  · intro name hname
    show q.get? name = if name = "flag" ∨ name ∈ d.registers then some .unassigned else none
    rw [Registers.get?_allocateAll hq, Registers.get?_initial]
    by_cases hmem : name ∈ d.registers
    · rw [if_pos hmem, if_pos (Or.inr hmem)]
    · simp [hname, hmem]
  · show (if "pc" = "flag" ∨ "pc" ∈ d.registers then some Value.unassigned else none) = none
    rw [if_neg]
    intro hor
    rcases hor with h' | h'
    · exact absurd h' (by decide)
    · exact hpc h'

/-- **A register that is set** is set for both. -/
theorem Ready.set (h : m.Ready c initial) (name : String) (v : Value) :
    (m.call (.request (.set name v))).Ready c (Interpreter.assign initial name v) := by
  show (m.attempt (.set name v)).Ready c (Interpreter.assign initial name v)
  -- a name that does not exist is refused there and changes nothing here
  cases hl : m.state.registers.lookup name with
  | none =>
      have hpc : name ≠ "pc" := by
        intro he
        rw [he, h.standard.counter] at hl
        exact absurd hl (by simp)
      have hnone : initial name = none := by
        rw [← h.registers name hpc]
        unfold register? Registers.get?
        rw [hl]
        rfl
      rw [attempt_error (apply_set_of_lookup_none hl), Interpreter.assign_of_none hnone]
      exact h
  | some id =>
      rw [attempt_ok (apply_set_of_lookup hl)]
      have hcompiled : Compiled c { m with state := m.state.set id v } :=
        h.compiled.frame fun _ => Registers.lookup_set _ _ _ _
      refine ⟨hcompiled, h.standard.set id v, ?_, ?_, h.stack, h.tape, h.steps, h.phase⟩
      · intro other ho
        show (m.state.registers.set id v).get? other = _
        rw [Registers.get?_set hl]
        by_cases he : other = name
        · have hsome : initial name = some (m.state.registers.get id) := by
            rw [← h.registers name (he ▸ ho)]
            exact Registers.get?_eq_some hl
          rw [if_pos he, he, Interpreter.assign_self hsome]
        · rw [if_neg he, Interpreter.assign_of_ne he]
          exact h.registers other ho
      · by_cases he : "pc" = name
        · rw [Interpreter.assign_of_none (he ▸ h.apart)]
          exact h.apart
        · rw [Interpreter.assign_of_ne he]
          exact h.apart

theorem Ready.start (h : m.Ready c initial) :
    ∃ m', m.start = .ok m' ∧ m'.InStep c
      { store := { registers := initial, rest := c.instructions, stack := .empty, tape := #[] }
        steps := 0
        phase := .running } := by
  obtain ⟨p, hp, _⟩ := h.compiled.program
  refine ⟨{ m with phase := .running, state := m.state.jump 0 }, ?_, ?_⟩
  · unfold Machine.start
    rw [h.phase, hp]
  · refine ⟨h.compiled.frame fun _ => Registers.lookup_set _ _ _ _, ⟨0, ?_⟩, h.steps, rfl⟩
    refine ⟨h.standard.set _ _, State.counter_jump h.standard.counter_lt 0, Nat.zero_le _, rfl,
      ?_, h.apart, h.stack, h.tape⟩
    intro name hname
    rw [State.jump_registers, Registers.get?_set h.standard.counter, if_neg hname]
    exact h.registers name hname

/-- Registers that are set one after the other are set for both. -/
theorem Ready.setAll (h : m.Ready c initial) (sets : List (String × Value)) :
    (m.callAll (sets.map fun set => .request (.set set.1 set.2))).Ready c
      (sets.foldl (fun registers set => Interpreter.assign registers set.1 set.2) initial) := by
  induction sets generalizing m initial with
  | nil => exact h
  | cons set sets ih => exact ih (h.set set.1 set.2)

/--
**The running machine means what the controller says.**

Take any description that can be built into a machine, with any operations and under any settings;
set any registers to any values, the counter and names that do not exist among them; then start.
After every number of turns the machine agrees with the interpreter after as many steps. In
particular the interpreter is never stuck: an instruction that was accepted has a meaning whenever
its turn comes.
-/
theorem runFor_agrees {d : Description} {bindings : List Binding} {settings : Settings}
    (h : d.build bindings settings = .ok m) (sets : List (String × Value)) (n : Nat) :
    ∃ started r,
      (m.callAll (sets.map fun set => .request (.set set.1 set.2))).start = .ok started
        ∧ (d.interpreter bindings settings).steps n
            ((d.interpreter bindings settings).start d.registers sets) = some r
        ∧ (started.runFor n).Agrees (d.interpreter bindings settings) r := by
  obtain ⟨started, hstart, hstep⟩ := ((ready_of_build h).setAll sets).start
  obtain ⟨r, hr, hagree⟩ := hstep.runFor n
  exact ⟨started, r, hstart, hr, hagree.agrees⟩

/-- A machine that piles up return addresses until an operation refuses one. -/
def pileDescription : Description where
  registers := ["top"]
  controller :=
    [.label "again",
      .instruction (.assign "top" (.label "again")),
      .instruction (.save "top"),
      .instruction (.test (.op "refuse" [.reg "top", .reg "pc"])),
      .instruction (.branch (.label "again")),
      .label "again",
      .instruction (.perform (.op "initialize-stack" []))]

def pileBindings : List Binding :=
  [⟨"refuse", .host fun args => .error (.arity 0 args.length)⟩]

theorem runFor_agrees_pile :
    ∃ m, pileDescription.build pileBindings .default = .ok m ∧ ∀ n, ∃ started r,
      (m.callAll ([("top", .bool true), ("pc", .symbol "nowhere"), ("nobody", .bool true)].map
          fun set => .request (.set set.1 set.2))).start = .ok started
        ∧ (pileDescription.interpreter pileBindings .default).steps n
            ((pileDescription.interpreter pileBindings .default).start ["top"]
              [("top", .bool true), ("pc", .symbol "nowhere"), ("nobody", .bool true)]) = some r
        ∧ (started.runFor n).Agrees (pileDescription.interpreter pileBindings .default) r := by
  have h : ∃ m, pileDescription.build pileBindings .default = .ok m := ⟨_, by cbv⟩
  obtain ⟨m, hm⟩ := h
  exact ⟨m, hm, fun n => runFor_agrees hm _ n⟩

end Machine

end RegisterMachine
