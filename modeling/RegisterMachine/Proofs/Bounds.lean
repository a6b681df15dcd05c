import RegisterMachine.Proofs.Labels
import RegisterMachine.Proofs.Life
import RegisterMachine.Proofs.Performing
import RegisterMachine.Proofs.Resolve

/-!
# Every number a program uses is in range

A program refers to registers and operations by number and to places in itself by position, and none
of these numbers is checked while it runs. They need no check. Resolution only hands out numbers that
the tables have, the tables never shrink, and the counter is moved by jumps alone, each of them to a
position at or before the end.

The program may have been made long before the start, by tables that have grown since, and the
registers may have been filled with anything, the counter included. So the argument is in two parts:
`Covered` holds of a machine from its creation on, and `Placed` of a machine from its start on.
-/

namespace RegisterMachine

/-- The sizes of the tables that a program refers to, and its own. -/
structure Bounds where
  registers : Nat
  operations : Nat
  size : Nat

/-! ## Numbers in range -/

/-- An input whose number is in range. The end of the program is a position too. -/
def Operand.Within (b : Bounds) : Operand → Prop
  | const _ => True
  | reg id => id < b.registers
  | label p => p ≤ b.size

structure Application.Within (b : Bounds) (a : Application) : Prop where
  op : a.op < b.operations
  inputs : ∀ o ∈ a.inputs, o.Within b

def Source.Within (b : Bounds) : Source → Prop
  | operand o => o.Within b
  | apply a => a.Within b

/-- An action whose numbers are in range, and which does not write the counter. -/
def Action.Within (b : Bounds) : Action → Prop
  | assign id source => id < b.registers ∧ id ≠ Registers.counter ∧ source.Within b
  | test a => a.Within b
  | branch p => p ≤ b.size
  | goto p => p ≤ b.size
  | gotoReg id => id < b.registers
  | save id => id < b.registers
  | restore id => id < b.registers ∧ id ≠ Registers.counter
  | perform a => a.Within b

/-- A program whose actions have their numbers in range. -/
def Program.Within (b : Bounds) (p : Program) : Prop := ∀ l ∈ p.lines.toList, l.action.Within b

/-- The instructions of a program, in order. -/
def Program.instructions (p : Program) : List Instruction := p.lines.toList.map Line.instruction

theorem Program.mem_lines {p : Program} {here : Nat} {line : Line}
    (h : p.lines[here]? = some line) : line ∈ p.lines.toList :=
  Array.mem_toList_iff.mpr (Array.mem_of_getElem? h)

theorem Program.lt_size {p : Program} {here : Nat} {line : Line}
    (h : p.lines[here]? = some line) : here < p.size := (Array.getElem?_eq_some_iff.mp h).1

/-- The actions of a program, in order. -/
def Program.actions (p : Program) : List Action := p.lines.toList.map Line.action

/-- One has no fewer registers and operations than the other, and programs of the same size. -/
structure Bounds.Le (b b' : Bounds) : Prop where
  registers : b.registers ≤ b'.registers
  operations : b.operations ≤ b'.operations
  size : b.size = b'.size

theorem Operand.Within.mono {b b' : Bounds} {o : Operand} (h : o.Within b) (hb : b.Le b') :
    o.Within b' := by
  cases o with
  | const v => trivial
  | reg id => exact Nat.lt_of_lt_of_le h hb.registers
  -- positions are bounded by the program itself, which does not grow with the tables
  | label p => show p ≤ b'.size; rw [← hb.size]; exact h

theorem Application.Within.mono {b b' : Bounds} {a : Application} (h : a.Within b)
    (hb : b.Le b') : a.Within b' :=
  ⟨Nat.lt_of_lt_of_le h.op hb.operations, fun o ho => (h.inputs o ho).mono hb⟩

theorem Action.Within.mono {b b' : Bounds} {a : Action} (h : a.Within b) (hb : b.Le b') :
    a.Within b' := by
  cases a with
  | assign id source =>
      refine ⟨Nat.lt_of_lt_of_le h.1 hb.registers, h.2.1, ?_⟩
      cases source with
      | operand o => exact Operand.Within.mono h.2.2 hb
      | apply a => exact Application.Within.mono h.2.2 hb
  | test a => exact Application.Within.mono h hb
  | perform a => exact Application.Within.mono h hb
  | branch p => show p ≤ b'.size; rw [← hb.size]; exact h
  | goto p => show p ≤ b'.size; rw [← hb.size]; exact h
  | gotoReg id => exact Nat.lt_of_lt_of_le h hb.registers
  | save id => exact Nat.lt_of_lt_of_le h hb.registers
  | restore id => exact ⟨Nat.lt_of_lt_of_le h.1 hb.registers, h.2⟩

theorem Program.Within.mono {b b' : Bounds} {p : Program} (h : p.Within b) (hb : b.Le b') :
    p.Within b' := fun l hl => (h l hl).mono hb

/-! ## Resolution stays in range -/

/-- A scope that hands out numbers in range only. -/
structure Scope.Within (b : Bounds) (s : Scope) : Prop where
  register : ∀ {name id}, s.register name = some id → id < b.registers
  operation : ∀ {name id}, s.operation name = some id → id < b.operations
  label : ∀ {name p}, s.label name = some p → p ≤ b.size

theorem Scope.within_of (registers : Registers) (operations : Operations) (items : List Item) :
    (Scope.of registers operations (Labels.ofItems items)).Within
      ⟨registers.size, operations.size, (Item.instructions items).length⟩ where
  register h := Registers.lookup_lt h
  operation h := Operations.lookup_lt h
  label {name p} h := by
    have h : (Labels.ofItems items).lookup name = some p := h
    rw [Labels.lookup_ofItems] at h
    exact Item.firstMark_le h

theorem Expr.Denotes.within {b : Bounds} {s : Scope} {e : Expr} {o : Operand}
    (hs : s.Within b) (h : e.Denotes s o) : o.Within b := by
  cases h with
  | const v => trivial
  | reg h => exact hs.register h
  | label h => exact hs.label h

theorem Application.Meant.within {b : Bounds} {s : Scope} {name : String} {inputs : List Expr}
    {a : Application} (hs : s.Within b) (h : a.Meant s name inputs) : a.Within b := by
  refine ⟨hs.operation h.op, ?_⟩
  intro o ho
  obtain ⟨i, hi, rfl⟩ := List.mem_iff_getElem.mp ho
  have hlen := h.inputs.length_eq
  exact (h.inputs.get (by omega) hi).within hs

/-- **What an instruction means is in range.** -/
theorem Instruction.Means.within {b : Bounds} {s : Scope} {i : Instruction} {a : Action}
    (hs : s.Within b) (h : i.Means s a) : a.Within b := by
  cases h with
  | assign ht hne he => exact ⟨hs.register ht, hne, he.within hs⟩
  | assignApply ht hne ha => exact ⟨hs.register ht, hne, ha.within hs⟩
  | test ha => exact ha.within hs
  | branch h => exact hs.label h
  | goto h => exact hs.label h
  | gotoReg h => exact hs.register h
  | save h => exact hs.register h
  | restore ht hne => exact ⟨hs.register ht, hne⟩
  | perform ha => exact ha.within hs

theorem Program.within_ofController {registers : Registers} {operations : Operations}
    {items : List Item} {p : Program} (h : ofController registers operations items = .ok p) :
    p.Within ⟨registers.size, operations.size, p.size⟩ := by
  obtain ⟨hi, hm⟩ := ofController_eq_ok h
  have hsize : (Item.instructions items).length = p.size := by
    rw [← hi, List.length_map, Array.length_toList]; rfl
  intro l hl
  rw [← hsize]
  exact (hm l hl).within (Scope.within_of registers operations items)

/-! ## From the creation on -/

namespace Machine

variable {m m' : Machine} {p : Program}

/-- What the numbers in a program of this machine are bounded by. -/
def bounds (m : Machine) (p : Program) : Bounds :=
  ⟨m.state.registers.size, m.operations.size, p.size⟩

/-- A machine whose tables have everything that its program refers to. -/
structure Covered (m : Machine) : Prop where
  standard : m.state.registers.Standard
  program : ∀ p, m.program = some p → p.Within (m.bounds p)

theorem covered_new (settings : Settings) : (new settings).Covered :=
  ⟨Registers.standard_initial, fun p hp => absurd hp (by simp [new])⟩

/-- **Kept by every call.** Tables only grow, and a program that replaces another is made for the
tables there are. -/
theorem Covered.call (h : m.Covered) (c : Call) : (m.call c).Covered := by
  rcases call_cases m c with ⟨settings, hc⟩ | ⟨r, hc⟩ | hc
  · rw [hc]; exact ⟨h.standard, h.program⟩
  · generalize m.call c = m' at hc ⊢
    cases hc with
    | allocate hph ha =>
        refine ⟨h.standard.allocate ha, ?_⟩
        intro p hp
        refine (h.program p hp).mono ⟨?_, Nat.le_refl _, rfl⟩
        show m.state.registers.size ≤ Registers.size _
        rw [Registers.size_allocate ha]
        exact Nat.le_succ _
    | install hph =>
        refine ⟨h.standard, ?_⟩
        intro p hp
        exact (h.program p hp).mono ⟨Nat.le_refl _, Operations.size_installAll_le _ _, rfl⟩
    -- whatever the old program was bounded by, the new one was made just now
    | program hph hok =>
        refine ⟨h.standard, ?_⟩
        intro p hp
        rw [← Option.some.inj hp]
        exact Program.within_ofController hok
    | set hl =>
        refine ⟨h.standard.set _ _, ?_⟩
        intro p hp
        refine (h.program p hp).mono ⟨?_, Nat.le_refl _, rfl⟩
        exact Nat.le_of_eq (Registers.size_set m.state.registers _ _).symm
  · rw [hc]; exact h

theorem covered_callAll (settings : Settings) (calls : List Call) :
    ((new settings).callAll calls).Covered :=
  callAll_induction (P := Covered) (fun _ c h => h.call c) (covered_new settings) calls

/-! ## From the start on -/

/-- A machine that runs `p`, or has run it. -/
structure Placed (p : Program) (m : Machine) : Prop where
  program : m.program = some p
  standard : m.state.registers.Standard
  within : p.Within (m.bounds p)
  /-- The counter points at a line, or behind the last one. -/
  counter : ∃ here ≤ p.size, m.state.registers.get Registers.counter = .position here
  /-- The counter was never found to hold anything else. -/
  fetched : ∀ v, m.phase ≠ .failed (.badCounter v)
  ended : m.phase = .halted → m.state.registers.get Registers.counter = .position p.size

end Machine

theorem State.counter_jump {s : State} (h : Registers.counter < s.registers.size) (k : Nat) :
    (s.jump k).registers.get Registers.counter = .position k :=
  Registers.get_set_self h _

/-- **Every action moves the counter**: to the next line, or to where the action jumps. -/
theorem Action.Performs.counter_eq {ops : Operations} {size here : Nat} {s s' : State}
    {action : Action} (h0 : Registers.counter < s.registers.size)
    (h : action.Performs ops size here s s') :
    ∃ k, s'.registers.get Registers.counter = .position k
      ∧ (k = here + 1 ∨ action = .branch k ∨ action = .goto k
        ∨ ∃ id, action = .gotoReg id ∧ k ≤ size) := by
  have hnext : ∀ {t : State}, t.registers.size = s.registers.size →
      (t.jump (here + 1)).registers.get Registers.counter = .position (here + 1) :=
    fun ht => State.counter_jump (by rw [ht]; exact h0) _
  cases h with
  | assign h =>
      refine ⟨here + 1, hnext ?_, Or.inl rfl⟩
      rw [State.set_registers, Registers.size_set, Source.run_registers h]
  | test h =>
      refine ⟨here + 1, hnext ?_, Or.inl rfl⟩
      rw [State.set_registers, Registers.size_set, h.registers]
  | @branch k h => exact ⟨k, State.counter_jump h0 _, Or.inr (Or.inl rfl)⟩
  | pass h => exact ⟨here + 1, hnext rfl, Or.inl rfl⟩
  | @goto k => exact ⟨k, State.counter_jump h0 _, Or.inr (Or.inr (Or.inl rfl))⟩
  | @gotoReg id k h hk =>
      exact ⟨k, State.counter_jump h0 _, Or.inr (Or.inr (Or.inr ⟨id, rfl, hk⟩))⟩
  | save => exact ⟨here + 1, hnext rfl, Or.inl rfl⟩
  | restore h =>
      refine ⟨here + 1, hnext ?_, Or.inl rfl⟩
      rw [State.set_registers, Registers.size_set]
  | perform h => exact ⟨here + 1, hnext (by rw [h.registers]), Or.inl rfl⟩

/-- **Every action leaves the counter in range.** -/
theorem Action.Performs.counter_le {b : Bounds} {ops : Operations} {here : Nat} {s s' : State}
    {action : Action} (hw : action.Within b) (h0 : Registers.counter < s.registers.size)
    (hlt : here < b.size) (h : action.Performs ops b.size here s s') :
    ∃ k ≤ b.size, s'.registers.get Registers.counter = .position k := by
  obtain ⟨k, hk, hlead⟩ := h.counter_eq h0
  refine ⟨k, ?_, hk⟩
  rcases hlead with rfl | rfl | rfl | ⟨id, rfl, hle⟩
  · exact hlt
  · exact hw
  · exact hw
  -- the one target that comes from a register is the one that is checked
  · exact hle

namespace Machine

variable {m m' : Machine} {p : Program}

/-- A start puts the counter in range, whatever it held. -/
theorem Covered.start (h : m.Covered) (hs : m.start = .ok m') :
    ∃ p, m.program = some p ∧ m'.Placed p := by
  obtain ⟨_, ⟨p, hp⟩, rfl⟩ := start_eq_ok hs
  have hc := State.counter_jump (s := m.state) h.standard.counter_lt 0
  refine ⟨p, hp, hp, h.standard.set _ _, ?_, ⟨0, Nat.zero_le _, hc⟩, by simp, by simp⟩
  refine (h.program p hp).mono ⟨?_, Nat.le_refl _, rfl⟩
  exact Nat.le_of_eq (Registers.size_set m.state.registers _ _).symm

/-- A machine that runs takes a turn at the position that its counter holds. -/
theorem Placed.turn (h : m.Placed p) (hph : m.phase = .running) :
    ∃ here ≤ p.size, m.state.registers.get Registers.counter = .position here
      ∧ m.Turn p here m.tick := by
  obtain ⟨here, hle, hc⟩ := h.counter
  exact ⟨here, hle, hc, tick_turn hph h.program hc⟩

/-- **Kept by every turn.** -/
theorem Placed.tick (h : m.Placed p) : m.tick.Placed p := by
  cases hidle : m.idle with
  | true => rw [tick_of_idle hidle]; exact h
  | false =>
      have hph := phase_eq_running hidle
      obtain ⟨here, hle, hc, ht⟩ := h.turn hph
      generalize m.tick = m' at ht ⊢
      cases ht with
      | finish hl =>
          have hend : here = p.size :=
            Nat.le_antisymm hle (Array.getElem?_eq_none_iff.mp hl)
          refine ⟨h.program, h.standard, h.within, ⟨here, hle, hc⟩, ?_, ?_⟩
          · intro v hv
            unfold finish at hv
            dsimp only at hv
            split at hv <;> simp at hv
          · intro _; rw [← hend]; exact hc
      -- a turn that ends in a failure leaves the counter where it was
      | exhausted hl hx =>
          exact ⟨h.program, h.standard, h.within, ⟨here, hle, hc⟩, by simp, by simp⟩
      | fault hl hx hr =>
          exact ⟨h.program, h.standard, h.within, ⟨here, hle, hc⟩, by simp, by simp⟩
      | @step line state hl hx hr =>
          have hlt := Program.lt_size hl
          have hmem := Program.mem_lines hl
          have hp := Action.run_eq_ok hr
          obtain ⟨hsize, hlookup⟩ := hp.frame
          refine ⟨h.program, ⟨?_, ?_⟩, ?_, ?_, by simp [hph], by simp [hph]⟩
          · exact (hlookup "pc").trans h.standard.counter
          · exact (hlookup "flag").trans h.standard.flag
          · exact h.within.mono ⟨Nat.le_of_eq hsize.symm, Nat.le_refl _, rfl⟩
          · exact Action.Performs.counter_le (b := m.bounds p) (h.within line hmem)
              h.standard.counter_lt hlt hp

theorem Placed.runFor (h : m.Placed p) (n : Nat) : (m.runFor n).Placed p :=
  runFor_induction (P := Placed p) (fun _ h => h.tick) h n

end Machine

end RegisterMachine
