import Mathlib
import RegisterMachine.Proofs.Bounds

/-!
# Execution that trusts no number

The execution defined here looks every register, every operation and every line up in its table and
gives up, without any result, where it does not find one. It is otherwise the execution of the
machine. That a started machine never notices the difference is what it means for its numbers to be
in range: there is no turn, in any run, in which something is looked up that is not there.
-/

namespace RegisterMachine

/-- A computation that may fail with a fault, and has no result at all if something is missing. -/
abbrev Checked : Type → Type := ExceptT Fault Option

/-- The content of a register, if there is one with this number. -/
def Registers.read? (r : Registers) (id : Nat) : Option Value := r.cells[id]?.map Register.value

/-- Changes a register, if there is one with this number. -/
def State.set? (s : State) (id : Nat) (v : Value) : Option State :=
  if id < s.registers.size then some (s.set id v) else none

def State.jump? (s : State) (k : Nat) : Option State := s.set? Registers.counter (.position k)

def Operand.value? (r : Registers) : Operand → Option Value
  | const v => some v
  | reg id => r.read? id
  | label p => some (.position p)

def Application.run? (ops : Operations) (a : Application) (s : State) :
    Checked (Value × State) := do
  let inputs ← (a.inputs.mapM (Operand.value? s.registers) : Option (List Value))
  match ← ops.get? a.op with
  | ⟨_, .initializeStack⟩ => pure (.unassigned, { s with stack := .empty })
  | ⟨name, .host f⟩ =>
    match f inputs with
    | .ok reply => pure (reply.value, { s with tape := s.tape ++ reply.effects })
    | .error e => throw (.operation name e)

def Source.run? (ops : Operations) (source : Source) (s : State) : Checked (Value × State) :=
  match source with
  | operand o => do
    let v ← o.value? s.registers
    pure (v, s)
  | apply a => a.run? ops s

def Action.run? (ops : Operations) (size here : Nat) (action : Action) (s : State) :
    Checked State :=
  match action with
  | assign target source => do
    let (v, s) ← source.run? ops s
    let s ← s.set? target v
    s.jump? (here + 1)
  | test a => do
    let (v, s) ← a.run? ops s
    let s ← s.set? Registers.flag (.bool v.isTrue)
    s.jump? (here + 1)
  | branch position => do
    let v ← s.registers.read? Registers.flag
    s.jump? (if v.isTrue then position else here + 1)
  | goto position => s.jump? position
  | gotoReg id => do
    match ← s.registers.read? id with
    | .position p => if p ≤ size then s.jump? p else throw (.badJump (.position p))
    | v => throw (.badJump v)
  | save id => do
    let v ← s.registers.read? id
    { s with stack := s.stack.push v }.jump? (here + 1)
  | restore id => do
    let (v, stack) ← s.stack.pop
    let s ← { s with stack }.set? id v
    s.jump? (here + 1)
  | perform a => do
    let (_, s) ← a.run? ops s
    s.jump? (here + 1)

/-- A turn in which every number is looked up. -/
def Machine.tick? (m : Machine) : Option Machine :=
  match m.phase, m.program with
  | .running, some p => do
    match ← m.state.registers.read? Registers.counter with
    | .position here =>
      match p.lines[here]? with
      | some line =>
        match m.exhausted with
        | some limit => some { m with phase := .failed (.stepLimit limit) }
        | none =>
          match ← line.action.run? m.operations p.size here m.state with
          | .ok state => some { m with state, steps := m.steps + 1 }
          | .error fault =>
            some
              { m with
                steps := m.steps + 1
                phase := .failed (.instruction here line.instruction fault) }
      | none => some m.finish
    | v => some { m with phase := .failed (.badCounter v) }
  | _, _ => some m

/-! ## Stages that miss nothing -/

namespace Checked

variable {α β : Type}

theorem lift_eq {x : Option α} {a : α} (h : x = some a) :
    (liftM x : Checked α) = some (.ok a) := by
  rw [h]
  rfl

theorem lift_bind {x : Option α} {a : α} (h : x = some a) (f : α → Checked β) :
    ((liftM x : Checked α) >>= f) = f a := by
  rw [h]
  rfl

/-- **Stage by stage.** If neither of two stages misses anything, the two together do not. -/
theorem bind_eq {x : Checked α} {y : Except Fault α} {f : α → Checked β} {g : α → Except Fault β}
    (hx : x = some y) (hf : ∀ a, y = .ok a → f a = some (g a)) : (x >>= f) = some (y >>= g) := by
  rw [hx]
  cases y with
  | error e => rfl
  | ok a => exact hf a rfl

end Checked

/-! ## Nothing is missing -/

theorem Registers.read?_eq {r : Registers} {id : Nat} (h : id < r.size) :
    r.read? id = some (r.get id) := by
  have hc : id < r.cells.length := h
  unfold read? get
  rw [List.getElem?_eq_getElem hc]
  rfl

theorem State.jump?_eq {s : State} (h : Registers.counter < s.registers.size) (k : Nat) :
    (liftM (s.jump? k) : Checked State) = some (.ok (s.jump k)) :=
  Checked.lift_eq (if_pos h)

theorem State.set?_jump?_eq {s : State} {id : Nat} (hid : id < s.registers.size)
    (h0 : Registers.counter < s.registers.size) (v : Value) (k : Nat) :
    ((do let t ← s.set? id v; t.jump? k) : Checked State) = some (.ok ((s.set id v).jump k)) := by
  have hset : s.set? id v = some (s.set id v) := if_pos hid
  rw [Checked.lift_bind hset]
  refine State.jump?_eq ?_ k
  rw [State.set_registers, Registers.size_set]
  exact h0

theorem Operand.value?_eq {b : Bounds} {r : Registers} {o : Operand} (hr : b.registers = r.size)
    (h : o.Within b) : o.value? r = some (o.value r) := by
  cases o with
  | const v => rfl
  | reg id => exact Registers.read?_eq (hr ▸ h)
  | label p => rfl

theorem Operand.mapM_value?_eq {b : Bounds} {r : Registers} {os : List Operand}
    (hr : b.registers = r.size) (h : ∀ o ∈ os, o.Within b) :
    os.mapM (Operand.value? r) = some (os.map (Operand.value r)) := by
  induction os with
  | nil => rfl
  | cons o os ih =>
      rw [List.mapM_cons, value?_eq hr (h o List.mem_cons_self),
        ih fun o' ho => h o' (List.mem_cons_of_mem o ho)]
      rfl

theorem Application.run?_eq {b : Bounds} {ops : Operations} {a : Application} {s : State}
    (hr : b.registers = s.registers.size) (ho : b.operations = ops.size) (h : a.Within b) :
    a.run? ops s = some (a.run ops s) := by
  have hop : a.op < ops.bindings.length := by
    have hlt := h.op
    rw [ho] at hlt
    exact hlt
  have hget : ops.get? a.op = some ops.bindings[a.op] := List.getElem?_eq_getElem hop
  unfold Application.run? Application.run
  rw [Checked.lift_bind (Operand.mapM_value?_eq hr h.inputs), Checked.lift_bind hget, hget]
  rcases ops.bindings[a.op] with ⟨name, f | _⟩
  · dsimp only
    cases f (a.inputs.map (Operand.value s.registers)) with
    | ok reply => rfl
    | error e => rfl
  · rfl

theorem Source.run?_eq {b : Bounds} {ops : Operations} {source : Source} {s : State}
    (hr : b.registers = s.registers.size) (ho : b.operations = ops.size) (h : source.Within b) :
    source.run? ops s = some (source.run ops s) := by
  cases source with
  | operand o => exact Checked.lift_bind (Operand.value?_eq hr h) _
  | apply a => exact Application.run?_eq hr ho h

/-- **No action misses anything.** -/
theorem Action.run?_eq {b : Bounds} {ops : Operations} {here : Nat} {action : Action} {s : State}
    (hr : b.registers = s.registers.size) (ho : b.operations = ops.size)
    (hstd : s.registers.Standard) (h : action.Within b) :
    action.run? ops b.size here s = some (action.run ops b.size here s) := by
  have h0 := hstd.counter_lt
  cases action with
  | assign target source =>
      refine Checked.bind_eq (Source.run?_eq hr ho h.2.2) ?_
      rintro ⟨v, t⟩ hs
      have ht := Source.run_registers hs
      refine State.set?_jump?_eq ?_ (ht ▸ h0) v (here + 1)
      rw [ht, ← hr]
      exact h.1
  -- no operation touches a register, so the two writes behind it find what was there
  | test a =>
      refine Checked.bind_eq (Application.run?_eq hr ho h) ?_
      rintro ⟨v, t⟩ hs
      have ht := (Application.run_eq_ok hs).registers
      exact State.set?_jump?_eq (ht ▸ hstd.flag_lt) (ht ▸ h0) _ (here + 1)
  | branch position =>
      refine (Checked.lift_bind (Registers.read?_eq hstd.flag_lt) _).trans ?_
      exact State.jump?_eq h0 _
  | goto position => exact State.jump?_eq h0 _
  | gotoReg id =>
      have hid : id < s.registers.size := hr ▸ h
      refine (Checked.lift_bind (Registers.read?_eq hid) _).trans ?_
      simp only [run]
      cases s.registers.get id with
      | position p =>
          dsimp only
          split
          · exact State.jump?_eq h0 _
          · rfl
      | _ => rfl
  | save id =>
      have hid : id < s.registers.size := hr ▸ h
      refine (Checked.lift_bind (Registers.read?_eq hid) _).trans ?_
      exact State.jump?_eq (s := { s with stack := s.stack.push (s.registers.get id) }) h0 _
  | restore id =>
      refine Checked.bind_eq (y := s.stack.pop) rfl ?_
      rintro ⟨v, stack⟩ _
      refine State.set?_jump?_eq (s := { s with stack }) ?_ h0 v (here + 1)
      show id < s.registers.size
      rw [← hr]
      exact h.1
  | perform a =>
      refine Checked.bind_eq (Application.run?_eq hr ho h) ?_
      rintro ⟨v, t⟩ hs
      exact State.jump?_eq ((Application.run_eq_ok hs).registers ▸ h0) _

namespace Machine

variable {m : Machine} {p : Program}

/-- **No turn misses anything.** -/
theorem Placed.tick?_eq (h : m.Placed p) : m.tick? = some m.tick := by
  obtain ⟨here, _, hc⟩ := h.counter
  -- the two turns choose by the same phase, the same counter and the same line
  obtain ⟨settings, operations, program, phase, steps, state⟩ := m
  have hp := h.program
  subst hp
  unfold Machine.tick? Machine.tick
  cases phase with
  | configuring | halted | failed e => rfl
  | running =>
      have hread := Registers.read?_eq h.standard.counter_lt
      dsimp only at hread hc ⊢
      rw [hread, Option.bind_eq_bind, Option.bind_some, hc]
      dsimp only
      cases hl : p.lines[here]? with
      | none => rfl
      | some line =>
          have hmem := Program.mem_lines hl
          have hrun : line.action.run? operations p.size here state
              = some (line.action.run operations p.size here state) :=
            Action.run?_eq rfl rfl h.standard (h.within line hmem)
          dsimp only
          cases exhausted _ with
          | some limit => rfl
          | none =>
              dsimp only
              rw [hrun, Option.bind_eq_bind, Option.bind_some]
              rw [step_eq]
              cases line.action.run operations p.size here state with
              | ok state => rfl
              | error f => rfl

/--
**Nothing is out of range, whatever a machine has been through.**

Take a new machine and call on it in any way: allocate, install, give it programs that are accepted
or refused, set registers, the counter among them, and change its settings. If it then starts, it
runs the program that it has at that moment, and after any number of turns: its counter holds a
position of the program or the end of it; every register and operation that an action refers to
exists, and every position in an action is one of the program's; each action has its instruction;
the counter was never found to hold anything but a position; the next turn looks up nothing that is
missing; and if the machine has halted, its counter stands exactly at the end.
-/
theorem started_in_range (settings : Settings) (calls : List Call) {m : Machine}
    (h : ((new settings).callAll calls).start = .ok m) :
    ∃ p, ((new settings).callAll calls).program = some p ∧ ∀ n,
      (m.runFor n).program = some p
        ∧ (∃ here ≤ p.size, (m.runFor n).register? "pc" = some (.position here))
        ∧ (∀ a ∈ p.actions, a.Within ((m.runFor n).bounds p))
        ∧ p.actions.length = p.instructions.length
        ∧ (∀ v, (m.runFor n).phase ≠ .failed (.badCounter v))
        ∧ (m.runFor n).tick? = some (m.runFor n).tick
        ∧ ((m.runFor n).phase = .halted →
            (m.runFor n).register? "pc" = some (.position p.size)) := by
  obtain ⟨p, hp, hplaced⟩ := (covered_callAll settings calls).start h
  refine ⟨p, hp, ?_⟩
  intro n
  have hn := hplaced.runFor n
  have hpc : (m.runFor n).register? "pc"
      = some ((m.runFor n).state.registers.get Registers.counter) :=
    Registers.get?_eq_some hn.standard.counter
  obtain ⟨here, hle, hc⟩ := hn.counter
  refine ⟨hn.program, ⟨here, hle, by rw [hpc, hc]⟩, ?_, ?_, hn.fetched, hn.tick?_eq, ?_⟩
  · intro a ha
    obtain ⟨line, hl, rfl⟩ := List.mem_map.mp ha
    exact hn.within line hl
  · rw [Program.actions, Program.instructions, List.length_map, List.length_map]
  · intro hend
    rw [hpc, hn.ended hend]

/-- A life with an allocation refused and a counter spoilt: registers are added behind the program,
and the counter is no position when the machine starts. -/
def spoiltLife : List Call :=
  [.request (.allocate "x"), .configure ⟨some 5, true⟩,
    .request (.program [.label "again", .instruction (.assign "x" (.label "again")),
      .instruction (.goto (.reg "x"))]),
    .request (.allocate "x"), .request (.allocate "y"), .request (.set "pc" (.symbol "nowhere"))]

theorem started_in_range_spoiltLife :
    ∃ (m : Machine) (p : Program), ((new .default).callAll spoiltLife).start = .ok m
      ∧ ∀ n, ∃ here ≤ p.size, (m.runFor n).register? "pc" = some (.position here) := by
  have h : ∃ m, ((new .default).callAll spoiltLife).start = .ok m := ⟨_, by cbv⟩
  obtain ⟨m, hm⟩ := h
  obtain ⟨p, _, hn⟩ := started_in_range .default spoiltLife hm
  exact ⟨m, p, hm, fun n => (hn n).2.1⟩

end Machine

end RegisterMachine
