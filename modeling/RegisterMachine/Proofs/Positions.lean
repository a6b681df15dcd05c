import Mathlib
import RegisterMachine.Machine.Launch
import RegisterMachine.Proofs.Calls
import RegisterMachine.Proofs.Executing
import RegisterMachine.Proofs.Parsing
import RegisterMachine.Proofs.Ready

/-!
# Positions cannot be forged

A position is a number that a jump will follow, so it matters where positions come from. In a program
that was read from source text they come from labels and from the counter only: no text spells a
position as a constant, no standard operation answers one, and whatever is saved, restored, copied or
passed to an operation was there before. So if none is put into a register from outside, every
position in a register or on the stack lies within the program, and a jump through a register that
holds a position cannot fail.

The invariant is `State.Confined`. It is kept by every turn of a machine whose program has no positions
among its constants and whose operations answer none (`Placed.confined_tick`); that text and the
standard operations are of this kind is shown apart from it.
-/

namespace RegisterMachine

variable {size : Nat} {v : Value}

/-! ## Values that lead nowhere -/

/-- A value that is no position. -/
def Value.NoPosition (v : Value) : Prop := ∀ k, v ≠ .position k

/-- A value that is no position beyond the end of a program. -/
def Value.Confined (size : Nat) (v : Value) : Prop := ∀ k, v = .position k → k ≤ size

theorem Value.NoPosition.confined (h : v.NoPosition) (size : Nat) : v.Confined size :=
  fun k hk => absurd hk (h k)

theorem Value.Literal.noPosition (h : v.Literal) : v.NoPosition := by
  intro k hk
  rw [hk] at h
  exact h

theorem Value.confined_position {k : Nat} (h : k ≤ size) : (Value.position k).Confined size := by
  intro j hj
  rw [← Value.position.inj hj]
  exact h

/-- Every position that the registers or the stack hold is within a program of this size. -/
structure State.Confined (size : Nat) (s : State) : Prop where
  registers : ∀ id, (s.registers.get id).Confined size
  stack : ∀ v ∈ s.stack.values, v.Confined size

namespace State.Confined

variable {s : State}

theorem set (h : s.Confined size) (hv : v.Confined size) (id : Nat) : (s.set id v).Confined size := by
  refine ⟨?_, h.stack⟩
  intro other
  rw [set_registers]
  rcases Registers.get_set_cases s.registers id v other with hget | hget
  · rw [hget]; exact hv
  · rw [hget]; exact h.registers other

theorem jump (h : s.Confined size) {k : Nat} (hk : k ≤ size) : (s.jump k).Confined size :=
  h.set (Value.confined_position hk) Registers.counter

theorem push (h : s.Confined size) (hv : v.Confined size) :
    Confined size { s with stack := s.stack.push v } := by
  refine ⟨h.registers, ?_⟩
  intro w hw
  rcases Array.mem_push.mp hw with hw | rfl
  · exact h.stack w hw
  · exact hv

/-- What comes off the stack was on it. -/
theorem pop (h : s.Confined size) {stack : Stack} (hpop : s.stack.pop = .ok (v, stack)) :
    v.Confined size ∧ Confined size { s with stack } := by
  have hvalues := Stack.values_of_pop hpop
  refine ⟨?_, h.registers, ?_⟩
  · exact h.stack v (by rw [hvalues]; exact Array.mem_push_self)
  · intro w hw
    exact h.stack w (by rw [hvalues]; exact Array.mem_push_of_mem v hw)

end State.Confined

/-! ## Where values come from -/

/-- Operations that answer no positions. -/
def Operations.NoPositions (t : Operations) : Prop :=
  ∀ {id name f args reply}, t.get? id = some ⟨name, .host f⟩ → f args = .ok reply →
    reply.value.NoPosition

/-- An instruction with no positions among its constants. -/
def Instruction.NoPositions (i : Instruction) : Prop :=
  ∀ e ∈ i.expr?, ∀ v ∈ e.constants, v.NoPosition

theorem Application.Answers.confined {ops : Operations} {a : Application} {s t : State}
    (hops : ops.NoPositions) (hs : s.Confined size) (h : a.Answers ops s v t) :
    v.Confined size ∧ t.Confined size := by
  cases h with
  | initializeStack h =>
      refine ⟨Value.NoPosition.confined (fun k hk => absurd hk (by simp)) size, hs.registers, ?_⟩
      intro w hw
      exact absurd hw (by simp [Stack.empty])
  | host h hf => exact ⟨(hops h hf).confined size, hs.registers, hs.stack⟩

/-- **An action keeps positions confined**, if what it copies from its instruction is. -/
theorem Action.Performs.confined {b : Bounds} {ops : Operations} {here : Nat} {s s' : State}
    {action : Action} (hops : ops.NoPositions) (hw : action.Within b) (hlt : here < b.size)
    (hconst : ∀ id w, action = .assign id (.operand (.const w)) → w.NoPosition) (hs : s.Confined b.size)
    (h : action.Performs ops b.size here s s') : s'.Confined b.size := by
  cases h with
  | @assign id source v t h =>
      cases source with
      | operand o =>
          obtain ⟨rfl, rfl⟩ := Prod.mk.inj (Except.ok.inj h)
          have hv : (o.value s.registers).Confined b.size := by
            cases o with
            | const w => exact (hconst id w rfl).confined b.size
            | reg other => exact hs.registers other
            | label p => exact Value.confined_position hw.2.2
          exact (hs.set hv id).jump hlt
      | apply a =>
          obtain ⟨hv, ht⟩ := (Application.run_eq_ok h).confined hops hs
          exact (ht.set hv id).jump hlt
  | test h =>
      obtain ⟨_, ht⟩ := h.confined hops hs
      exact (ht.set (Value.NoPosition.confined (fun k hk => absurd hk (by simp)) b.size) _).jump hlt
  | branch h => exact hs.jump hw
  | pass h => exact hs.jump hlt
  | goto => exact hs.jump hw
  | gotoReg h hp => exact hs.jump hp
  | save => exact (hs.push (hs.registers _)).jump hlt
  | @restore id v stack h =>
      obtain ⟨hv, hstack⟩ := hs.pop h
      exact (hstack.set hv id).jump hlt
  | perform h =>
      obtain ⟨_, ht⟩ := h.confined hops hs
      exact ht.jump hlt

/-- A constant that is assigned is one of the instruction. -/
theorem Instruction.Means.noPosition {s : Scope} {i : Instruction} {id : Nat} {w : Value}
    (h : i.Means s (.assign id (.operand (.const w)))) (hi : i.NoPositions) :
    w.NoPosition := by
  cases h with
  | assign ht hne he =>
      cases he with
      | const w => exact hi _ rfl w List.mem_cons_self

namespace Machine

variable {m : Machine} {p : Program}

/-- **Kept by every turn.** -/
theorem Placed.confined_tick (h : m.Placed p) (hs : m.Settled) (hops : m.operations.NoPositions)
    (hplain : ∀ i ∈ p.instructions, i.NoPositions) (hc : m.state.Confined p.size) :
    m.tick.state.Confined p.size := by
  rcases h.tick_state hs with hsame | ⟨here, i, action, hat, hperf⟩
  · rw [hsame]; exact hc
  · have hi := hplain i (hat.executes.mem h.program)
    refine Action.Performs.confined (b := m.bounds p) hops hat.within hat.lt ?_ hc hperf
    intro id w haction
    have hm := hat.means
    rw [haction] at hm
    exact hm.noPosition hi

theorem Placed.confined_runFor (h : m.Placed p) (hs : m.Settled) (hops : m.operations.NoPositions)
    (hplain : ∀ i ∈ p.instructions, i.NoPositions) (hc : m.state.Confined p.size) (n : Nat) :
    (m.runFor n).state.Confined p.size := by
  induction n with
  | zero => exact hc
  | succ n ih =>
      have hopsn : (m.runFor n).operations.NoPositions := by rw [h.operations_runFor]; exact hops
      rw [runFor_tick]
      exact (h.runFor n).confined_tick (hs.runFor h n) hopsn hplain ih

end Machine

/-! ## Source text and standard operations -/

namespace Derivation

/-- No form spells a position. -/
theorem Form.literal_of_mem_constants {f : Form} (hv : v ∈ f.meaning.constants) : v.Literal := by
  cases f with
  | constAtom a => rw [List.mem_singleton.mp hv]; exact Reading.literal_ofAtom a
  | constString s => rw [List.mem_singleton.mp hv]; trivial
  | reg | label | op => exact absurd hv List.not_mem_nil

theorem Expression.literal_of_mem_constants {e : Expression} (hv : v ∈ e.meaning.constants) :
    v.Literal := by
  cases e with
  | form f hf => exact Form.literal_of_mem_constants hv
  | apply name inputs =>
      obtain ⟨x, hx, hvx⟩ := Expr.mem_inputsConstants.mp hv
      obtain ⟨f, _, rfl⟩ := List.mem_map.mp hx
      exact Form.literal_of_mem_constants hvx

theorem Instruction.noPositions_meaning (i : Instruction) : i.meaning.NoPositions := by
  have hexpr : ∀ e ∈ i.meaning.expr?, ∃ x : Expression, x.meaning = e := by
    intro e he
    cases i with
    | assign reg source => exact ⟨source, Option.some.inj he⟩
    | act verb x => cases verb <;> exact ⟨x, Option.some.inj he⟩
    | move verb reg => cases verb <;> exact absurd he (by simp [meaning, Moving.meaning, RegisterMachine.Instruction.expr?])
  intro e he v hv
  obtain ⟨x, rfl⟩ := hexpr e he
  exact (Expression.literal_of_mem_constants hv).noPosition

end Derivation

theorem Item.mem_instructions {i : Instruction} {items : List Item} :
    i ∈ instructions items ↔ instruction i ∈ items := by
  induction items with
  | nil => simp [instructions]
  | cons x rest ih =>
      cases x with
      | label l => simp [instructions, ih]
      | instruction j => simp [instructions, ih]

/-- **No text spells a position.** -/
theorem Description.noPositions_of_source {source : String} {d : Description}
    (h : ofSource source = .ok d) : ∀ i ∈ Item.instructions d.controller, i.NoPositions := by
  intro i hi
  obtain ⟨m, rfl, _⟩ := Derivation.ofSource_eq_ok.mp h
  obtain ⟨x, _, hx⟩ := List.mem_map.mp (Item.mem_instructions.mp hi)
  cases x with
  | label a => exact absurd hx (by simp [Derivation.Item.meaning])
  | instruction j =>
      rw [← Item.instruction.inj hx]
      exact Derivation.Instruction.noPositions_meaning j

namespace Standard

variable {args : List Value} {reply : Reply}

theorem onOrder_eq_ok {wanted : Ordering → Bool} (h : onOrder wanted args = .ok reply) :
    ∃ b, reply = .silent (.bool b) := by
  obtain ⟨_, _, h⟩ := bind_eq_ok.mp h
  obtain ⟨_, _, h⟩ := bind_eq_ok.mp h
  obtain ⟨_, _, h⟩ := bind_eq_ok.mp h
  exact ⟨_, (Except.ok.inj h).symm⟩

/-- **No standard operation answers a position.** -/
theorem noPosition_of_host (o : Standard) (h : o.host args = .ok reply) : reply.value.NoPosition := by
  intro k hk
  cases o with
  | add | sub | mul =>
      obtain ⟨x, y, _, rfl⟩ := onNumbers_eq_ok_iff.mp h
      exact absurd hk (by simp [Reply.silent])
  | less | greater | lessEq | greaterEq =>
      obtain ⟨b, rfl⟩ := onOrder_eq_ok h
      exact absurd hk (by simp [Reply.silent])
  | div | rem =>
      obtain ⟨x, y, _, _, rfl⟩ := onQuotient_eq_ok_iff.mp h
      exact absurd hk (by simp [Reply.silent])
  | equal =>
      obtain ⟨_, _, h⟩ := bind_eq_ok.mp h
      rw [← Except.ok.inj h] at hk
      exact absurd hk (by simp [Reply.silent])
  | not =>
      simp only [host] at h
      split at h
      · rw [← Except.ok.inj h] at hk
        exact absurd hk (by simp [Reply.silent])
      · exact absurd h (by simp)
  | print =>
      rw [← Except.ok.inj h] at hk
      exact absurd hk (by simp)

end Standard

theorem Operations.noPositions_standard :
    (initial.installAll Standard.bindings).NoPositions := by
  intro id name f args reply hget hf
  rcases mem_installAll (List.mem_of_getElem? hget) with hb | hb
  · exact absurd hb (by simp [initial])
  · obtain ⟨o, _, ho⟩ := List.mem_map.mp hb
    obtain ⟨_, hop⟩ := Binding.mk.inj ho
    rw [← Operation.host.inj hop] at hf
    exact o.noPosition_of_host hf

/-! ## Runs of source text -/

/-- The value that a run failed to jump to. -/
def RunError.badJump? : RunError → Option Value
  | .instruction _ _ (.badJump v) => some v
  | .badCounter v => some v
  | _ => none

/-- The value that a run has failed to jump to. -/
def Phase.badJump? : Phase → Option Value
  | .failed e => e.badJump?
  | .configuring | .running | .halted => none

theorem Phase.badJump?_eq_some {ph : Phase} (h : ph.badJump? = some v) :
    ∃ e, ph = .failed e ∧ e.badJump? = some v := by
  cases ph with
  | failed e => exact ⟨e, rfl, h⟩
  | configuring | running | halted => exact absurd h (by simp [badJump?])

namespace Machine

variable {m : Machine} {p : Program}

theorem register?_confined (h : m.state.Confined size) {name : String}
    (hv : m.register? name = some v) : v.Confined size := by
  obtain ⟨id, _, rfl⟩ := Option.map_eq_some_iff.mp hv
  exact h.registers id

theorem confined_setAll (h : m.state.Confined size) {sets : List (String × Value)}
    (hsets : ∀ set ∈ sets, set.2.NoPosition) : (m.setAll sets).state.Confined size := by
  induction sets generalizing m with
  | nil => exact h
  | cons set sets ih =>
      obtain ⟨hset, hsets⟩ := List.forall_mem_cons.mp hsets
      refine ih (m := m.attempt (.set set.1 set.2)) ?_ hsets
      rcases attempt_set_cases m set.1 set.2 with ⟨id, _, hm⟩ | ⟨_, hm⟩
      · rw [hm]; exact h.set (hset.confined size) id
      · rw [hm]; exact h

/-- **A bad jump is one to no position**, where all positions are confined. -/
theorem Placed.noPosition_of_badJump (h : m.Placed p) (hs : m.Settled) (hph : m.phase = .running)
    (hc : ∀ n, (m.runFor n).state.Confined p.size) {n : Nat}
    (hv : (m.runFor n).phase.badJump? = some v) : v.NoPosition := by
  obtain ⟨e, he, hv⟩ := Phase.badJump?_eq_some hv
  have hended : (m.runFor n).Ended := Or.inr ⟨e, he⟩
  obtain ⟨k, hk, hlast⟩ := exists_last_turn hph hended.idle
  rw [hlast] at he
  rcases (h.runFor k).tick_failed (hs.runFor h k) hk he with
    ⟨limit, rfl⟩ | ⟨depth, rfl⟩ | ⟨position, i, fault, rfl, hat⟩
  · exact absurd hv (by simp [RunError.badJump?])
  · exact absurd hv (by simp [RunError.badJump?])
  · cases hat.explained with
    | emptyStack => exact absurd hv (by simp [RunError.badJump?])
    | operation => exact absurd hv (by simp [RunError.badJump?])
    | badJump hr hbeyond =>
        obtain rfl := Option.some.inj hv
        intro j hj
        have hle := register?_confined (hc k) hr j hj
        have hlt := hbeyond j hj
        omega

/-- **A jump to a position succeeds**, if it is one of the program. -/
theorem Placed.goto_succeeds (h : m.Placed p) (hs : m.Settled) {name : String} {k : Nat}
    (hi : m.Executes (.goto (.reg name))) (hr : m.register? name = some (.position k))
    (hk : k ≤ p.size) : m.tick.phase = .running ∧ m.tick.register? "pc" = some (.position k) := by
  obtain ⟨here, action, hat, ht⟩ := h.tick_of_executes hs hi
  cases hat.means with
  | @gotoReg _ id hl =>
      have hget : m.state.registers.get id = .position k :=
        Option.some.inj ((Registers.get?_eq_some hl).symm.trans hr)
      have hrun : (Action.gotoReg id).run m.operations p.size here m.state = .ok (m.state.jump k) := by
        simp only [Action.run, hget, if_pos hk]
      have htick : m.tick = { m with state := m.state.jump k, steps := m.steps + 1 } := by
        rw [ht]
        rw [step_eq, hrun]
      have hpc : m.tick.register? "pc" = some (m.tick.state.registers.get Registers.counter) :=
        h.tick.register?_pc
      rw [htick] at hpc ⊢
      exact ⟨hi.running, hpc.trans (congrArg some (State.counter_jump h.standard.counter_lt k))⟩

/--
**Source text cannot forge positions.**

Take any text that describes a machine, build it with the standard operations under any settings, set
any registers to values that are no positions, the counter among them, and start. After every number
of turns, every position in a register or on the stack lies within the program or at its end. So a
jump can only fail for a value that is no position, and a jump through a register that holds a
position goes there.
-/
theorem positions_confined {source : String} {d : Description} {settings : Settings}
    {sets : List (String × Value)} (hd : Description.ofSource source = .ok d)
    (hm : d.buildStandard settings = .ok m) (hsets : ∀ set ∈ sets, set.2.NoPosition) :
    ∃ started p, (m.setAll sets).start = .ok started ∧ started.program = some p ∧ ∀ n,
      (started.runFor n).state.Confined p.size
        ∧ (∀ v, (started.runFor n).phase.badJump? = some v → v.NoPosition)
        ∧ ∀ name k, (started.runFor n).Executes (.goto (.reg name)) →
            (started.runFor n).register? name = some (.position k) →
            (started.runFor (n + 1)).phase = .running
              ∧ (started.runFor (n + 1)).register? "pc" = some (.position k) := by
  obtain ⟨hmade, hunassigned, _⟩ := made_of_build hm
  have hset := hmade.setAll sets
  obtain ⟨p, hloaded, hi, _⟩ := hset.loaded
  obtain ⟨hstart, hplaced, hsettled⟩ := hloaded.start
  -- nothing is in the registers, then no position is, and then there is the counter
  have hempty : m.state.Confined p.size := by
    refine ⟨?_, ?_⟩
    · intro id k hk
      rw [hunassigned id] at hk
      exact absurd hk (by simp)
    · intro w hw
      rw [hmade.stack] at hw
      exact absurd hw (by simp [Stack.empty])
  have hbegin := (confined_setAll hempty hsets).jump (Nat.zero_le p.size)
  have hplain : ∀ i ∈ p.instructions, i.NoPositions := by
    rw [hi]
    exact Description.noPositions_of_source hd
  have hops : (m.setAll sets).operations.NoPositions := by
    rw [hset.operations]
    exact Operations.noPositions_standard
  have hconfined := hplaced.confined_runFor hsettled hops hplain hbegin
  refine ⟨_, p, hstart, hplaced.program, ?_⟩
  intro n
  refine ⟨hconfined n, ?_, ?_⟩
  · intro v hv
    exact hplaced.noPosition_of_badJump hsettled rfl hconfined hv
  · intro name k hexec hr
    rw [runFor_tick]
    exact (hplaced.runFor n).goto_succeeds (hsettled.runFor hplaced n) hexec hr
      (register?_confined (hconfined n) hr k rfl)

/-- A text that saves the counter, goes home through a register, and then jumps to whatever it was
given. -/
def detour : String :=
  "(machine (registers x y) (controller (assign y (label h)) (save pc) (goto (reg y)) h (goto (reg x))))"

def detourSets : List (String × Value) := [("x", .symbol "nowhere"), ("pc", .bool true)]

theorem positions_confined_detour :
    ∃ d m started p, Description.ofSource detour = .ok d ∧ d.buildStandard .default = .ok m
      ∧ (m.setAll detourSets).start = .ok started
      ∧ started.program = some p ∧ (∀ n, (started.runFor n).state.Confined p.size)
      ∧ (started.runFor 3).register? "pc" = some (.position 3)
      ∧ ∃ v, (started.runFor 4).phase.badJump? = some v ∧ v.NoPosition := by
  obtain ⟨d, hd, hcontroller⟩ : ∃ d, Description.ofSource detour = .ok d
      ∧ Item.instructions d.controller
        = [.assign "y" (.label "h"), .save "pc", .goto (.reg "y"), .goto (.reg "x")] :=
    ⟨_, by cbv, by cbv⟩
  -- the standard operations are too many for anything but the kernel to install
  have hturns : ((Description.ofSource detour).toOption.bind fun d =>
      (d.buildStandard .default).toOption.bind fun m =>
        (m.setAll detourSets).start.toOption.map fun s =>
          ((s.runFor 2).idle, (s.runFor 2).exhausted, (s.runFor 2).register? "pc",
            (s.runFor 2).register? "y", (s.runFor 4).phase.badJump?))
      = some (false, none, some (.position 2), some (.position 3), some (.symbol "nowhere")) := by
    decide +kernel
  rw [hd, Except.toOption, Option.bind_some, Option.bind_eq_some_iff] at hturns
  obtain ⟨m, hm, hturns⟩ := hturns
  obtain ⟨s, hs, hturns⟩ := Option.map_eq_some_iff.mp hturns
  simp only [Prod.mk.injEq] at hturns
  obtain ⟨hidle, hallowed, hpc, hy, hends⟩ := hturns
  replace hm := ok_of_toOption hm
  replace hs := ok_of_toOption hs
  obtain ⟨p, hloaded, hi, _⟩ := ((made_of_build hm).1.setAll detourSets).loaded
  obtain ⟨hstart, hplaced, _⟩ := hloaded.start
  obtain rfl := Except.ok.inj (hstart.symm.trans hs)
  have hgoto : Executes _ (Instruction.goto (.reg "y")) :=
    ⟨phase_eq_running hidle, hallowed, p, 2, (hplaced.runFor 2).program, hpc,
      by rw [hi, hcontroller]; rfl⟩
  have hsets : ∀ set ∈ detourSets, set.2.NoPosition := by
    simp [detourSets, Value.NoPosition]
  obtain ⟨started, q, hq, hprogram, hrun⟩ := positions_confined hd hm hsets
  obtain rfl := Except.ok.inj (hq.symm.trans hs)
  exact ⟨d, m, _, q, hd, hm, hs, hprogram, fun n => (hrun n).1,
    ((hrun 2).2.2 "y" 3 hgoto hy).2, _, hends, (hrun 4).2.1 _ hends⟩

end Machine

end RegisterMachine
