import RegisterMachine.Proofs.Failing
import RegisterMachine.Proofs.Statistics

/-!
# The instruction whose turn it is

A turn is told here by the instruction that it executes, as the instruction stands in the controller:
which one that is (`Executes`), that it does what it means (`Placed.tick_of_executes`), and that a
turn which gets nothing done leaves the state alone (`Placed.tick_state`).

What a turn does to the stack is told by the instruction and by what names stand for (`useOf`):
saving and restoring are instructions of their own, while an operation that clears the stack can be
applied by any of the three instructions that apply operations, and under any name that the host gave
it. The stack is then as after that use of it (`Placed.stack_tick`), whether or not the instruction
succeeded, so it is handled in four ways (`StackTurn`).
-/

namespace RegisterMachine

/-- Instructions and lines are at the same positions. -/
theorem Program.instructions_getElem? {p : Program} {here : Nat} {i : Instruction} :
    p.instructions[here]? = some i ↔ ∃ line, p.lines[here]? = some line ∧ line.instruction = i := by
  unfold instructions
  rw [List.getElem?_map, Array.getElem?_toList, Option.map_eq_some_iff]

/-- A register that is changed keeps its content when the counter moves. -/
theorem State.get?_set_jump {s : State} {name : String} {id : Nat} (hs : s.registers.Standard)
    (hl : s.registers.lookup name = some id) (hne : id ≠ Registers.counter) (v : Value) (k : Nat) :
    ((s.set id v).jump k).registers.get? name = some v := by
  have hname : name ≠ "pc" := fun he => hne ((hs.eq_pc hl).mpr he)
  rw [jump_registers, set_registers, Registers.get?_set (hs.set id v).counter, if_neg hname,
    Registers.get?_set hl, if_pos rfl]

namespace Machine

open Stack (Use)

variable {m : Machine} {p : Program} {i : Instruction} {action : Action} {labels : Labels}

/-- The next turn executes this instruction, with whatever success. -/
structure Executes (m : Machine) (i : Instruction) : Prop where
  running : m.phase = .running
  /-- The steps are not used up. -/
  allowed : m.exhausted = none
  /-- The counter points at the instruction. -/
  counter : ∃ p here, m.program = some p ∧ m.register? "pc" = some (.position here)
    ∧ p.instructions[here]? = some i

theorem Executes.mem (h : m.Executes i) (hp : m.program = some p) : i ∈ p.instructions := by
  obtain ⟨q, here, hq, _, hi⟩ := h.counter
  have hpq : q = p := Option.some.inj (hq.symm.trans hp)
  rw [← hpq]
  exact List.mem_of_getElem? hi

theorem Placed.register?_pc (h : m.Placed p) :
    m.register? "pc" = some (m.state.registers.get Registers.counter) :=
  Registers.get?_eq_some h.standard.counter

/-- The next turn executes instruction `i`, which stands at position `here`, with this action. -/
structure ExecutesAt (p : Program) (m : Machine) (here : Nat) (i : Instruction) (action : Action) :
    Prop where
  executes : m.Executes i
  lt : here < p.size
  counter : m.state.registers.get Registers.counter = .position here
  means : i.Means (m.scope p.labels) action
  within : action.Within (m.bounds p)

/-- **An instruction that is executed** takes a step with the action that it means. -/
theorem Placed.tick_of_executes (h : m.Placed p) (hs : m.Settled) (hi : m.Executes i) :
    ∃ here action, ExecutesAt p m here i action ∧ m.tick = m.step p.size here ⟨i, action⟩ := by
  obtain ⟨q, here, hq, hpc, hget⟩ := hi.counter
  have hqp : q = p := Option.some.inj (hq.symm.trans h.program)
  subst hqp
  obtain ⟨line, hl, hline⟩ := Program.instructions_getElem?.mp hget
  have hc : m.state.registers.get Registers.counter = .position here :=
    Option.some.inj (h.register?_pc.symm.trans hpc)
  have hmem := Program.mem_lines hl
  have hlt := Program.lt_size hl
  subst hline
  exact ⟨here, line.action, ⟨hi, hlt, hc, hs q hq line hmem, h.within line hmem⟩,
    tick_line hi.running hq hc hl hi.allowed⟩

/-- **A turn leaves the state alone or does what an instruction means.** -/
theorem Placed.tick_state (h : m.Placed p) (hs : m.Settled) :
    m.tick.state = m.state
      ∨ ∃ here i action, ExecutesAt p m here i action
          ∧ action.Performs m.operations p.size here m.state m.tick.state := by
  cases hidle : m.idle with
  | true => rw [tick_of_idle hidle]; exact Or.inl rfl
  | false =>
      have hph := phase_eq_running hidle
      obtain ⟨here, _, hc, ht⟩ := h.turn hph
      generalize m.tick = m' at ht ⊢
      cases ht with
      | finish | exhausted | fault => exact Or.inl rfl
      | @step line state hl hx hr =>
          have hmem := Program.mem_lines hl
          have hpc : m.register? "pc" = some (.position here) := by rw [h.register?_pc, hc]
          have hget := Program.instructions_getElem?.mpr ⟨line, hl, rfl⟩
          have hi : m.Executes line.instruction := ⟨hph, hx, p, here, h.program, hpc, hget⟩
          have hlt := Program.lt_size hl
          exact Or.inr ⟨here, line.instruction, line.action,
            ⟨hi, hlt, hc, hs p h.program line hmem, h.within line hmem⟩, Action.run_eq_ok hr⟩

/-- The position of the instruction that the next turn executes, with whatever success, and the
instruction. -/
def next? (m : Machine) : Option (Nat × Instruction) :=
  match m.phase, m.exhausted, m.program, m.state.registers.get Registers.counter with
  | .running, none, some p, .position here =>
    p.lines[here]?.map fun line => (here, line.instruction)
  | _, _, _, _ => none

/-- What a turn does that executes an instruction. -/
theorem Placed.tick_of_next? {here : Nat} (h : m.Placed p) (hs : m.Settled)
    (hn : m.next? = some (here, i)) :
    p.instructions[here]? = some i
      ∧ ∃ action, ExecutesAt p m here i action ∧ m.tick = m.step p.size here ⟨i, action⟩ := by
  unfold next? at hn
  split at hn
  · next q here' hph hx hq hc =>
    obtain rfl : q = p := Option.some.inj (hq.symm.trans h.program)
    obtain ⟨line, hl, hline⟩ := Option.map_eq_some_iff.mp hn
    obtain ⟨rfl, rfl⟩ := Prod.mk.inj hline
    have hmem := Program.mem_lines hl
    have hget := Program.instructions_getElem?.mpr ⟨line, hl, rfl⟩
    have hpc : m.register? "pc" = some (.position here') := by rw [h.register?_pc, hc]
    have hi : m.Executes line.instruction := ⟨hph, hx, q, here', hq, hpc, hget⟩
    exact ⟨hget, line.action,
      ⟨hi, Program.lt_size hl, hc, hs q hq line hmem, h.within line hmem⟩,
      tick_line hph hq hc hl hx⟩
  · exact absurd hn (by simp)

/-- A turn that executes nothing is the last one, or comes after it, and changes nothing. -/
theorem Placed.tick_of_next?_none (h : m.Placed p) (hn : m.next? = none) :
    m.tick.state = m.state ∧ m.tick.steps = m.steps ∧ m.tick.idle = true := by
  cases hidle : m.idle with
  | true => rw [tick_of_idle hidle]; exact ⟨rfl, rfl, hidle⟩
  | false =>
      have hph := phase_eq_running hidle
      obtain ⟨here, _, hc⟩ := h.counter
      cases hl : p.lines[here]? with
      | none =>
          rw [tick_end hph h.program hc hl]
          exact ⟨rfl, rfl, (ended_finish m).idle⟩
      | some line =>
          cases hx : m.exhausted with
          | some limit => rw [tick_exhausted hph h.program hc hl hx]; exact ⟨rfl, rfl, rfl⟩
          | none => simp [next?, hph, hx, h.program, hc, hl] at hn

/-- What is seen of a machine before each of its first turns, so many of them, where there is
anything to see. -/
def seen {α : Type} (m : Machine) (f : Machine → Option α) (n : Nat) : List α :=
  (List.range n).filterMap fun t => f (m.runFor t)

theorem seen_succ {α : Type} (m : Machine) (f : Machine → Option α) (n : Nat) :
    m.seen f (n + 1) = m.seen f n ++ (f (m.runFor n)).toList := by
  unfold seen
  rw [List.range_succ, List.filterMap_append]
  rfl

/-- **No turn touches the operations.** -/
theorem Placed.operations_tick (h : m.Placed p) : m.tick.operations = m.operations := by
  cases hidle : m.idle with
  | true => rw [tick_of_idle hidle]
  | false =>
      obtain ⟨here, _, _, ht⟩ := h.turn (phase_eq_running hidle)
      generalize m.tick = m' at ht ⊢
      cases ht with
      | finish | exhausted | fault | step => rfl

theorem Placed.operations_runFor (h : m.Placed p) (n : Nat) :
    (m.runFor n).operations = m.operations := by
  induction n with
  | zero => rfl
  | succ n ih => rw [runFor_tick, (h.runFor n).operations_tick, ih]

/-! ## The stack in a turn -/

/-- What applying the operation of this name asks of the stack. -/
def useOfOperation (m : Machine) (name : String) : Option Use :=
  match m.operations.find? name with
  | some ⟨_, .initializeStack⟩ => some .clear
  | some ⟨_, .host _⟩ | none => none

/-- What an instruction asks of the stack. -/
def useOf (m : Machine) : Instruction → Option Use
  | .save name => (m.register? name).map .push
  | .restore _ => some .pop
  | .assign _ (.op name _) | .test (.op name _) | .perform (.op name _) => m.useOfOperation name
  | .assign .. | .test _ | .perform _ | .branch _ | .goto _ => none

/-- What the next turn asks of the stack. -/
def use? (m : Machine) : Option Use := m.next?.bind fun x => m.useOf x.2

theorem useOf_of_applies {name : String} {inputs : List Expr} (h : i.Applies name inputs) :
    m.useOf i = m.useOfOperation name := by
  cases h with
  | assign | test | perform => rfl

theorem useOf_save {name : String} {v : Value} (h : m.register? name = some v) :
    m.useOf (.save name) = some (.push v) := congrArg (Option.map Use.push) h

/-- An operation that answers leaves the stack as its use of it does. -/
theorem stack_after_answers {name : String} {inputs : List Expr} {a : Application} {v : Value}
    {t : State} (hi : i.Applies name inputs) (ha : a.Meant (m.scope labels) name inputs)
    (h : a.Answers m.operations m.state v t) :
    t.stack = m.state.stack.after (m.useOf i).toList := by
  obtain ⟨b, hget, hfind, _⟩ := Operations.get?_of_lookup ha.op
  rw [useOf_of_applies hi]
  unfold useOfOperation
  cases h with
  | @initializeStack bound h =>
      obtain rfl : b = ⟨bound, .initializeStack⟩ := Option.some.inj (hget.symm.trans h)
      rw [hfind]
      rfl
  | @host bound f reply h =>
      obtain rfl : b = ⟨bound, .host f⟩ := Option.some.inj (hget.symm.trans h)
      rw [hfind]
      rfl

/-- **An instruction leaves the stack** as its use of it does. -/
theorem stack_after_performs {size here : Nat} {st : State} (hm : i.Means (m.scope labels) action)
    (h : action.Performs m.operations size here m.state st) :
    st.stack = m.state.stack.after (m.useOf i).toList := by
  cases hm with
  | assign ht hne he =>
      cases h with
      | assign hr =>
          obtain ⟨_, rfl⟩ := Prod.mk.inj (Except.ok.inj hr)
          cases he with
          | const | reg | label => rfl
  | assignApply ht hne ha =>
      cases h with
      | @assign _ _ _ t hr =>
          show t.stack = _
          exact stack_after_answers (.assign _) ha (Application.run_eq_ok hr)
  | test ha =>
      cases h with
      | @test _ _ t hr =>
          show t.stack = _
          exact stack_after_answers .test ha hr
  | perform ha =>
      cases h with
      | @perform _ _ t hr =>
          show t.stack = _
          exact stack_after_answers .perform ha hr
  | branch => cases h with | branch | pass => rfl
  | goto => cases h with | goto => rfl
  | gotoReg => cases h with | gotoReg => rfl
  | save hl =>
      cases h with
      | save =>
          rw [useOf_save (Registers.get?_eq_some hl)]
          rfl
  | restore =>
      cases h with
      | @restore _ v stack hpop =>
          show stack = (m.state.stack.use .pop).2
          simp only [Stack.use, Stack.InPlace.on_pop, hpop]
          rfl

/-- An operation that fails is one of the host, which has no use for the stack. -/
theorem useOf_of_fails {name : String} {inputs : List Expr} {a : Application} {f : Fault}
    (hi : i.Applies name inputs) (ha : a.Meant (m.scope labels) name inputs)
    (h : a.Fails m.operations m.state f) : m.useOf i = none := by
  obtain ⟨b, hget, hfind, _⟩ := Operations.get?_of_lookup ha.op
  rw [useOf_of_applies hi]
  unfold useOfOperation
  cases h with
  | missing h => exact absurd (hget.symm.trans h) (by simp)
  | @host bound f e h =>
      obtain rfl : b = ⟨bound, .host f⟩ := Option.some.inj (hget.symm.trans h)
      rw [hfind]

/-- **An instruction that fails** made no use of the stack, or one that does nothing. -/
theorem stack_after_fails {size : Nat} {f : Fault} (hm : i.Means (m.scope labels) action)
    (h : action.Fails m.operations size m.state f) :
    m.state.stack.after (m.useOf i).toList = m.state.stack := by
  cases hm with
  | assign | branch | goto | save => cases h
  | assignApply ht hne ha =>
      cases h with
      | assign hf => rw [useOf_of_fails (.assign _) ha hf]; rfl
  | test ha =>
      cases h with
      | test hf => rw [useOf_of_fails .test ha hf]; rfl
  | perform ha =>
      cases h with
      | perform hf => rw [useOf_of_fails .perform ha hf]; rfl
  | gotoReg => rfl
  | restore =>
      cases h with
      | restore hzero => exact congrArg Prod.snd (Stack.use_pop_eq_missed.mpr hzero)

/-- **A turn leaves the stack** as its use of it does. -/
theorem Placed.stack_tick (h : m.Placed p) (hs : m.Settled) :
    m.tick.state.stack = m.state.stack.after m.use?.toList := by
  unfold use?
  cases hn : m.next? with
  | none =>
      rw [(h.tick_of_next?_none hn).1]
      rfl
  | some x =>
      obtain ⟨_, action, hat, ht⟩ := h.tick_of_next? hs hn
      rw [ht]
      rw [step_eq]
      cases hr : action.run m.operations p.size x.1 m.state with
      | ok st => exact stack_after_performs hat.means (Action.run_eq_ok hr)
      | error f => exact (stack_after_fails hat.means (Action.run_eq_error hr)).symm

/-- The next turn applies an operation that empties the stack, under whatever name. -/
def Empties (m : Machine) : Prop :=
  ∃ i name inputs bound, m.Executes i ∧ i.Applies name inputs
    ∧ m.operations.find? name = some ⟨bound, .initializeStack⟩

/-- What the next turn does to the stack. -/
inductive StackTurn (m : Machine) : Prop where
  | kept (h : m.tick.state.stack = m.state.stack)
  | saved {name : String} {v : Value} (hi : m.Executes (.save name))
      (hv : m.register? name = some v) (h : m.tick.state.stack = m.state.stack.push v)
  /-- The value that comes off the stack goes into the register. -/
  | restored {name : String} {v : Value} (hi : m.Executes (.restore name))
      (h : m.state.stack.pop = .ok (v, m.tick.state.stack)) (hv : m.tick.register? name = some v)
  | emptied (hi : m.Empties) (h : m.tick.state.stack = .empty)

/-- **The stack is handled in four ways.** -/
theorem Placed.stackTurn (h : m.Placed p) (hs : m.Settled) : m.StackTurn := by
  have hstack := h.stack_tick hs
  unfold use? at hstack
  cases hn : m.next? with
  | none =>
      rw [hn] at hstack
      exact .kept hstack
  | some x =>
      obtain ⟨here, i⟩ := x
      rw [hn, Option.bind_some] at hstack
      obtain ⟨_, action, hat, ht⟩ := h.tick_of_next? hs hn
      have hi := hat.executes
      have happlied : ∀ {name inputs}, i.Applies name inputs → m.StackTurn := by
        intro name inputs happ
        rw [useOf_of_applies happ] at hstack
        unfold useOfOperation at hstack
        split at hstack
        · next bound hfind => exact .emptied ⟨i, name, inputs, bound, hi, happ, hfind⟩ hstack
        · exact .kept hstack
        · exact .kept hstack
      cases hat.means with
      | assign htarget hne he =>
          cases he with
          | const | reg | label => exact .kept hstack
      | assignApply => exact happlied (.assign _)
      | test => exact happlied .test
      | perform => exact happlied .perform
      | branch | goto | gotoReg => exact .kept hstack
      | save hl =>
          have hv := Registers.get?_eq_some hl
          rw [useOf_save hv] at hstack
          exact .saved hi hv hstack
      | @restore name id htarget hne =>
          cases hpop : m.state.stack.pop with
          | error f =>
              refine .kept (hstack.trans ?_)
              exact congrArg Prod.snd (Stack.use_pop_eq_missed.mpr (Stack.pop_eq_error_iff.mp hpop).2)
          | ok x =>
              obtain ⟨v, stack⟩ := x
              have hrun : (Action.restore id).run m.operations p.size here m.state =
                  .ok (({ m.state with stack }.set id v).jump (here + 1)) := by
                unfold Action.run
                rw [hpop]
                rfl
              have htick : m.tick.state = ({ m.state with stack }.set id v).jump (here + 1) := by
                rw [ht]
                rw [step_eq, hrun]
              refine .restored (v := v) hi (by rw [htick]; exact hpop) ?_
              unfold register?
              rw [htick]
              exact State.get?_set_jump (s := { m.state with stack }) h.standard htarget hne v
                (here + 1)

end Machine

end RegisterMachine
