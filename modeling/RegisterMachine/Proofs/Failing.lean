import RegisterMachine.Proofs.Meaning

/-!
# Instructions that fail

An instruction fails for one of three reasons: there is nothing to restore, the register to jump
through holds no place in the program, or the operation that is applied answers an error. Whichever
it is, the instruction has changed nothing, though it works on the machine in place
(`Action.on_execute`). So the machine that a failed run leaves is the one that the instruction found,
and the report can be checked against it, by the names in the instruction.

A run that fails does so in its last turn, so all there is to know about failures is what one turn
can do (`Placed.tick_failed`); the rest is finding that turn.
-/

namespace RegisterMachine

variable {ops : Operations} {s : State} {f : Fault}

/-! ## What a failing action found -/

/-- What an operation that fails found: its number stands for nothing, or for a function of the host
that answered an error. -/
inductive Application.Fails (ops : Operations) (a : Application) (s : State) : Fault → Prop where
  | missing (h : ops.get? a.op = none) : Fails ops a s (.operation "" (.other "no such operation"))
  | host {name : String} {f : Host} {e : OperationError} (h : ops.get? a.op = some ⟨name, .host f⟩)
      (hf : f (a.inputs.map (Operand.value s.registers)) = .error e) :
      Fails ops a s (.operation name e)

theorem Application.run_eq_error {a : Application} (h : a.run ops s = .error f) :
    a.Fails ops s f := by
  unfold Application.run at h
  split at h
  · next hb => rw [← Except.error.inj h]; exact .missing hb
  · exact absurd h (by simp)
  · next name g hb =>
      split at h
      · exact absurd h (by simp)
      · next e hf => rw [← Except.error.inj h]; exact .host hb hf

namespace Action

/-- What an action that fails found, in a program of the given size. -/
inductive Fails (ops : Operations) (size : Nat) (s : State) : Action → Fault → Prop where
  | assign {id : Nat} {a : Application} {f : Fault} (h : a.Fails ops s f) :
      Fails ops size s (.assign id (.apply a)) f
  | test {a : Application} {f : Fault} (h : a.Fails ops s f) : Fails ops size s (.test a) f
  | gotoReg {id : Nat} (h : ∀ k, s.registers.get id = .position k → size < k) :
      Fails ops size s (.gotoReg id) (.badJump (s.registers.get id))
  | restore {id : Nat} (h : s.stack.depth = 0) : Fails ops size s (.restore id) .emptyStack
  | perform {a : Application} {f : Fault} (h : a.Fails ops s f) : Fails ops size s (.perform a) f

/-- **Failures, taken apart.** -/
theorem run_eq_error {size here : Nat} {action : Action}
    (h : action.run ops size here s = .error f) : action.Fails ops size s f := by
  cases action with
  | assign id source =>
      rcases bind_eq_error.mp h with h | ⟨_, _, h⟩
      · cases source with
        | operand o => exact absurd h (by simp [Source.run])
        | apply a => exact .assign (Application.run_eq_error h)
      · exact absurd h (by simp [pure, Except.pure])
  | test a =>
      rcases bind_eq_error.mp h with h | ⟨_, _, h⟩
      · exact .test (Application.run_eq_error h)
      · exact absurd h (by simp [pure, Except.pure])
  | branch p => exact absurd h (by simp [run])
  | goto p => exact absurd h (by simp [run])
  | gotoReg id =>
      simp only [run] at h
      split at h
      -- a position is refused only beyond the end, anything else always
      · next p hp =>
          split at h
          · exact absurd h (by simp)
          · next hlt =>
              rw [← Except.error.inj h, ← hp]
              refine .gotoReg ?_
              intro k hk
              rw [hp] at hk
              have hpk : p = k := Value.position.inj hk
              omega
      · next hno =>
          rw [← Except.error.inj h]
          exact .gotoReg fun k hk => absurd hk (hno k)
  | save id => exact absurd h (by simp [run])
  | restore id =>
      rcases bind_eq_error.mp h with h | ⟨_, _, h⟩
      · obtain ⟨rfl, hdepth⟩ := Stack.pop_eq_error_iff.mp h
        exact .restore hdepth
      · exact absurd h (by simp [pure, Except.pure])
  | perform a =>
      rcases bind_eq_error.mp h with h | ⟨_, _, h⟩
      · exact .perform (Application.run_eq_error h)
      · exact absurd h (by simp [pure, Except.pure])

end Action

/-! ## What the instruction says of it -/

/-- An instruction that applies the operation of this name to these inputs. -/
inductive Instruction.Applies (name : String) (inputs : List Expr) : Instruction → Prop where
  | assign (register : String) : Applies name inputs (.assign register (.op name inputs))
  | test : Applies name inputs (.test (.op name inputs))
  | perform : Applies name inputs (.perform (.op name inputs))

namespace Machine

variable {m m' : Machine} {p : Program} {settings : Settings} {acts : List (Act × Answer)}

/-- What an input is worth now, in a program with these labels. -/
def input? (m : Machine) (labels : Labels) : Expr → Option Value
  | .const v => some v
  | .reg name => m.register? name
  | .label name => (labels.lookup name).map .position
  | .op .. => none

/-- The reason that a machine gives, before it executes an instruction, for this fault of it. -/
inductive Explains (m : Machine) (p : Program) : Instruction → Fault → Prop where
  | emptyStack {name : String} (h : m.state.stack.depth = 0) :
      Explains m p (.restore name) .emptyStack
  | badJump {name : String} {v : Value} (h : m.register? name = some v)
      (hv : ∀ k, v = .position k → p.size < k) : Explains m p (.goto (.reg name)) (.badJump v)
  | operation {i : Instruction} {name : String} {inputs : List Expr} {host : Host}
      {values : List Value} {e : OperationError} (hi : i.Applies name inputs)
      (hop : m.operations.find? name = some ⟨name, .host host⟩)
      (hv : inputs.mapM (m.input? p.labels) = some values) (h : host values = .error e) :
      Explains m p i (.operation name e)

/-! ## By number and by name -/

theorem input?_eq {labels : Labels} {e : Expr} {o : Operand} (h : e.Denotes (m.scope labels) o) :
    m.input? labels e = some (o.value m.state.registers) := by
  cases h with
  | const v => rfl
  | reg h => exact Registers.get?_eq_some h
  | label h => exact Option.map_eq_some_iff.mpr ⟨_, h, rfl⟩

theorem mapM_input?_eq {labels : Labels} {es : List Expr} {os : List Operand}
    (h : List.Forall₂ (Expr.Denotes (m.scope labels)) es os) :
    es.mapM (m.input? labels) = some (os.map (Operand.value m.state.registers)) := by
  induction h with
  | nil => rfl
  | cons he _ ih => rw [List.mapM_cons, input?_eq he, ih]; rfl

/-- **An application that fails** is one of a function of the host, which answered the error. -/
theorem explains_of_application {i : Instruction} {name : String} {inputs : List Expr}
    {a : Application} (hi : i.Applies name inputs) (hm : a.Meant (m.scope p.labels) name inputs)
    (hf : a.Fails m.operations m.state f) : m.Explains p i f := by
  -- the name was looked up when the program was made, so something is there to be applied
  obtain ⟨b, hget, hfind, hname⟩ := Operations.get?_of_lookup hm.op
  cases hf with
  | missing h => exact absurd (hget.symm.trans h) (by simp)
  | @host name' host e h hf =>
      have hb : b = ⟨name', .host host⟩ := Option.some.inj (hget.symm.trans h)
      have hname' : name' = name := by rw [← hname, hb]
      rw [hname'] at hb ⊢
      rw [hb] at hfind
      exact .operation hi hfind (mapM_input?_eq hm.inputs) hf

/-- **Every fault is explained** by what the instruction found. -/
theorem explains_of_fails {i : Instruction} {a : Action} (hm : i.Means (m.scope p.labels) a)
    (hf : a.Fails m.operations p.size m.state f) : m.Explains p i f := by
  cases hm with
  | assign => cases hf
  | assignApply ht hne ha =>
      cases hf with
      | assign hf => exact explains_of_application (.assign _) ha hf
  | test ha =>
      cases hf with
      | test hf => exact explains_of_application .test ha hf
  | branch | goto | save => cases hf
  | gotoReg hr =>
      cases hf with
      | gotoReg hv => exact .badJump (Registers.get?_eq_some hr) hv
  | restore =>
      cases hf with
      | restore hdepth => exact .emptyStack hdepth
  | perform ha =>
      cases hf with
      | perform hf => exact explains_of_application .perform ha hf

/-! ## The turn in which a run fails -/

/-- How the instruction `i` at `position` failed: `before` is the machine that executed it and `after`
is what that left. -/
structure FailsAt (p : Program) (before : Machine) (position : Nat) (i : Instruction) (fault : Fault)
    (after : Machine) : Prop where
  running : before.phase = .running
  within : position < p.size
  instruction : p.instructions[position]? = some i
  counter : before.register? "pc" = some (.position position)
  /-- The instruction was carried out in place, and failed in the state that `after` has. -/
  left : ∃ line, p.lines[position]? = some line ∧ line.instruction = i
    ∧ (line.action.execute before.operations p.size position).on before.state
      = (.error fault, after.state)
  /-- Registers, stack and counts of the stack are as before. The instruction is counted. -/
  after_eq : after = { before with
    steps := before.steps + 1
    phase := .failed (.instruction position i fault) }
  explained : before.Explains p i fault

/-- **A turn in which a run fails.** -/
theorem Placed.tick_failed {e : RunError} (h : m.Placed p) (hs : m.Settled)
    (hph : m.phase = .running) (he : m.tick.phase = .failed e) :
    (∃ limit, e = .stepLimit limit) ∨ (∃ depth, e = .unbalanced depth)
      ∨ ∃ position i fault, e = .instruction position i fault
          ∧ FailsAt p m position i fault m.tick := by
  obtain ⟨here, _, hc, ht⟩ := h.turn hph
  generalize m.tick = m' at he ht ⊢
  cases ht with
  | finish hl =>
      unfold finish at he
      dsimp only at he
      split at he
      · exact Or.inr (Or.inl ⟨_, (Phase.failed.inj he).symm⟩)
      · exact absurd he (by simp)
  | exhausted hl hx => exact Or.inl ⟨_, (Phase.failed.inj he).symm⟩
  | @fault line f hl hx hr =>
      have hmem := Program.mem_lines hl
      have hwithin := Program.lt_size hl
      have hline : p.instructions[here]? = some line.instruction := by
        unfold Program.instructions
        rw [List.getElem?_map, Array.getElem?_toList, hl]
        rfl
      have hcounter : m.register? "pc" = some (.position here) := by
        rw [← hc]
        exact Registers.get?_eq_some h.standard.counter
      have hexplained : m.Explains p line.instruction f :=
        explains_of_fails (hs p h.program line hmem) (Action.run_eq_error hr)
      have hleft : (line.action.execute m.operations p.size here).on m.state = (.error f, m.state) :=
        Action.on_execute_eq_error_iff.mpr ⟨hr, rfl⟩
      exact Or.inr (Or.inr ⟨here, line.instruction, f, (Phase.failed.inj he).symm,
        hph, hwithin, hline, hcounter, ⟨line, hl, rfl, hleft⟩, rfl, hexplained⟩)
  | step hl hx hr => exact absurd (hph.symm.trans he) (by simp)

theorem start_error {e : RunError} (h : m.start = .error e) :
    e = .noProgram ∨ e = .alreadyStarted := by
  unfold start at h
  split at h
  · exact absurd h (by simp)
  · exact Or.inl (Except.error.inj h).symm
  all_goals exact Or.inr (Except.error.inj h).symm

/--
**A failing instruction is reported exactly, and leaves everything as it was.**

Whatever was done to a machine, if a start of it comes back with an error, then it was refused, or the
run ran out of steps or left values on the stack, or an instruction of the program failed. In the last
case the error names that instruction, at the position that the counter holds, and shows its text
behind the fault; the state that is left is the one in which the instruction, carried out in place,
failed, and but for the count of instructions and the stage the machine is the one that it found; and
the fault is explained by what was in that machine.
-/
theorem failure_reported {m' : Machine} {e : RunError} (h : Lived settings acts m)
    (hr : m.Returns (.error e) m') :
    e = .noProgram ∨ e = .alreadyStarted ∨ (∃ limit, e = .stepLimit limit)
      ∨ (∃ depth, e = .unbalanced depth)
      ∨ ∃ started p n position i fault, m.start = .ok started ∧ m.program = some p
          ∧ e = .instruction position i fault
          ∧ e.message = fault.message ++ " (at " ++ toString position ++ ": " ++ i.text ++ ")"
          ∧ FailsAt p (started.runFor n) position i fault m' := by
  rcases hr.cases with ⟨e', hs, he', _⟩ | ⟨started, n, hs, hout, rfl⟩
  · rw [Except.error.inj he']
    rcases start_error hs with he | he
    · exact Or.inl he
    · exact Or.inr (Or.inl he)
  · obtain ⟨p, hp, hplaced⟩ := h.recorded.covered.start hs
    have hsettled := h.settled.start hs
    have hph : started.phase = .running := by
      obtain ⟨_, _, rfl⟩ := start_eq_ok hs
      rfl
    have hfailed : (started.runFor n).phase = .failed e := by
      rcases outcome_cases hout with ⟨_, hok⟩ | ⟨e', he', herr⟩
      · exact absurd hok (by simp)
      · rw [he', Except.error.inj herr]
    obtain ⟨k, hk, hlast⟩ := exists_last_turn hph (idle_of_outcome hout)
    rw [hlast] at hfailed ⊢
    rcases (hplaced.runFor k).tick_failed (hsettled.runFor hplaced k) hk hfailed with
      he | he | ⟨position, i, fault, he, hat⟩
    · exact Or.inr (Or.inr (Or.inl he))
    · exact Or.inr (Or.inr (Or.inr (Or.inl he)))
    · exact Or.inr (Or.inr (Or.inr (Or.inr
        ⟨started, p, k, position, i, fault, hs, hp, he, by rw [he]; rfl, hat⟩)))

/-- An instruction that applies an operation to two inputs. -/
def refusal : Instruction := .perform (.op "refuse" [.reg "flag", .const (.bool true)])

/-- A machine is made ready whose second instruction applies an operation that always fails. -/
def refusing : List (Act × Answer) :=
  [(.call (.request (.install [⟨"refuse", .host fun _ => .error .divisionByZero⟩])), .done),
    (.call (.request (.program [.instruction (.save "flag"), .instruction refusal])), .done)]

theorem failure_reported_refusing :
    ∃ m m' started p n, Lived .default refusing m
      ∧ m.Returns (.error (.instruction 1 refusal (.operation "refuse" .divisionByZero))) m'
      ∧ m.start = .ok started ∧ m.program = some p
      ∧ FailsAt p (started.runFor n) 1 refusal (.operation "refuse" .divisionByZero) m' := by
  obtain ⟨m₁, hinstall, m, hprogram, s, hs, hend⟩ :
      ∃ m₁, (new .default).apply
          (.install [⟨"refuse", .host fun _ => .error .divisionByZero⟩]) = .ok m₁
        ∧ ∃ m, m₁.apply (.program [.instruction (.save "flag"), .instruction refusal]) = .ok m
        ∧ ∃ s, m.start = .ok s ∧ (s.runFor 2).outcome
          = some (.error (.instruction 1 refusal (.operation "refuse" .divisionByZero))) :=
    ⟨_, by cbv, _, by cbv, _, by cbv, rfl⟩
  have h₁ := Lived.new.next ((does_request_of_ok hinstall).mpr ⟨rfl, rfl⟩)
  have h : Lived .default refusing m := h₁.next ((does_request_of_ok hprogram).mpr ⟨rfl, rfl⟩)
  have hr : m.Returns _ (s.runFor 2) := .of_ok hs hend
  rcases failure_reported h hr with
    he | he | ⟨_, he⟩ | ⟨_, he⟩ | ⟨started, p, n, position, i, fault, hs', hp, he, _, hat⟩
  · exact absurd he (by simp)
  · exact absurd he (by simp)
  · exact absurd he (by simp)
  · exact absurd he (by simp)
  · obtain ⟨rfl, rfl, rfl⟩ := RunError.instruction.inj he
    exact ⟨m, _, started, p, n, h, hr, hs', hp, hat⟩

end Machine

end RegisterMachine
