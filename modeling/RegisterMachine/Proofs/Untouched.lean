import RegisterMachine.Proofs.Alike

/-!
# Registers that a program does not touch

There are three ways in which an instruction puts something into a register other than the counter:
it assigns, it restores, or it is a test and sets the flag (`Instruction.Writes`). A turn changes no
register but the counter in any other way (`Placed.register?_tick`), so what a program does not
write to holds for ever what it held at the start (`Placed.register?_runFor`).

That is a statement about one run. A register that no instruction so much as names is invisible to
the program too, which is a statement about two: whatever it holds, they are alike in all else.
-/

namespace RegisterMachine

/-! ## What instructions write to -/

/-- The registers that an instruction may change, apart from the counter. -/
inductive Instruction.Writes : Instruction → String → Prop where
  | assign (name : String) (e : Expr) : Writes (.assign name e) name
  | restore (name : String) : Writes (.restore name) name
  | test (e : Expr) : Writes (.test e) "flag"

theorem Instruction.writes_flag {i : Instruction} (h : i.Writes "flag") :
    (∃ e, i = .test e) ∨ (∃ e, i = .assign "flag" e) ∨ i = .restore "flag" := by
  generalize hflag : "flag" = name at h
  cases h with
  | assign name e => exact Or.inr (Or.inl ⟨e, rfl⟩)
  | restore name => exact Or.inr (Or.inr rfl)
  | test e => exact Or.inl ⟨e, rfl⟩

namespace State

variable {s : State} {name other : String} {id : Nat}

/-- A jump changes the counter only. -/
theorem get?_jump (hs : s.registers.Standard) (hpc : other ≠ "pc") (k : Nat) :
    (s.jump k).registers.get? other = s.registers.get? other := by
  rw [jump_registers, Registers.get?_set hs.counter, if_neg hpc]

/-- A register that is set is the only one to change, but for the counter. -/
theorem get?_set_jump_of_ne (hs : s.registers.Standard) (hl : s.registers.lookup name = some id)
    (hne : other ≠ name) (hpc : other ≠ "pc") (v : Value) (k : Nat) :
    ((s.set id v).jump k).registers.get? other = s.registers.get? other := by
  rw [get?_jump (hs.set id v) hpc, set_registers, Registers.get?_set hl, if_neg hne]

end State

/-- **An action writes to what its instruction writes to**, and to the counter. -/
theorem Action.Performs.get?_eq {ops : Operations} {labels : Labels} {size here : Nat} {s s' : State}
    {i : Instruction} {action : Action} {name : String}
    (h : action.Performs ops size here s s') (hm : i.Means (.of s.registers ops labels) action)
    (hs : s.registers.Standard) (hpc : name ≠ "pc") (hw : ¬i.Writes name) :
    s'.registers.get? name = s.registers.get? name := by
  -- an operation that answers leaves the registers as they were
  have hset : ∀ {t : State} {target : String} {id : Nat} (v : Value), t.registers = s.registers →
      s.registers.lookup target = some id → name ≠ target →
      ((t.set id v).jump (here + 1)).registers.get? name = s.registers.get? name := by
    intro t target id v ht hl hne
    rw [← ht] at hs hl ⊢
    exact State.get?_set_jump_of_ne hs hl hne hpc v (here + 1)
  cases h with
  | assign hr =>
      have ht := Source.run_registers hr
      cases hm with
      | assign hl => exact hset _ ht hl fun he => hw (he ▸ .assign _ _)
      | assignApply hl => exact hset _ ht hl fun he => hw (he ▸ .assign _ _)
  | test ha =>
      cases hm with
      | test => exact hset _ ha.registers hs.flag fun he => hw (he ▸ .test _)
  | branch | pass | goto | gotoReg | save => exact State.get?_jump hs hpc _
  | restore hp =>
      cases hm with
      | restore hl => exact hset _ rfl hl fun he => hw (he ▸ .restore _)
  | perform ha =>
      have ht := ha.registers
      rw [← ht] at hs ⊢
      exact State.get?_jump hs hpc _

/-! ## One run -/

namespace Machine

variable {m : Machine} {p : Program} {name : String} {settings : Settings}
  {acts : List (Act × Answer)}

/-- **A turn changes a register only by executing an instruction that writes to it**, if it is not
the counter. -/
theorem Placed.register?_tick (h : m.Placed p) (hs : m.Settled) (hpc : name ≠ "pc") :
    m.tick.register? name = m.register? name ∨ ∃ i, m.Executes i ∧ i.Writes name := by
  rcases h.tick_state hs with hsame | ⟨here, i, action, hat, hperf⟩
  · left
    unfold register?
    rw [hsame]
  · by_cases hw : i.Writes name
    · exact Or.inr ⟨i, hat.executes, hw⟩
    · exact Or.inl (hperf.get?_eq hat.means h.standard hpc hw)

/-- **What a program does not write to is kept**, for any number of turns. -/
theorem Placed.register?_runFor (h : m.Placed p) (hs : m.Settled) (hpc : name ≠ "pc")
    (hw : ∀ i ∈ p.instructions, ¬i.Writes name) (n : Nat) :
    (m.runFor n).register? name = m.register? name := by
  induction n with
  | zero => rfl
  | succ n ih =>
      have hn := h.runFor n
      rw [runFor_tick]
      rcases hn.register?_tick (hs.runFor h n) hpc with hsame | ⟨i, hi, hwrites⟩
      · rw [hsame, ih]
      · exact absurd hwrites (hw i (hi.mem hn.program))

/-! ## Two runs -/

/-- A machine is as ready after a register was set as it was before. -/
theorem Loaded.set (h : m.Loaded p) (name : String) (v : Value) :
    (m.attempt (.set name v)).Loaded p := by
  have hcovered := h.covered.call (.request (.set name v))
  have hsettled := h.settled.call (.request (.set name v))
  obtain ⟨r, hr⟩ := attempt_set_eq m name v
  exact ⟨hcovered, hsettled, by rw [hr]; exact h.phase, by rw [hr]; exact h.program⟩

/-- Setting one register to this or that makes no difference to the others. -/
theorem alike_set (m : Machine) (name : String) (v w : Value) :
    (m.attempt (.set name v)).Alike (· ≠ name) (m.attempt (.set name w)) := by
  have hregisters : ∀ other, other ≠ name → (m.attempt (.set name v)).register? other
      = (m.attempt (.set name w)).register? other := by
    intro other hother
    rw [register?_attempt_set, register?_attempt_set, if_neg hother, if_neg hother]
  obtain ⟨r, hr⟩ := attempt_set_eq m name v
  obtain ⟨q, hq⟩ := attempt_set_eq m name w
  rw [hr, hq] at hregisters ⊢
  exact ⟨rfl, rfl, rfl, hregisters, rfl, rfl⟩

/-- **A register that is not named cannot be noticed.** -/
theorem Loaded.runsAlike_set (h : m.Loaded p) (hpc : name ≠ "pc") (hflag : name ≠ "flag")
    (hx : ∀ i ∈ p.instructions, .register name ∉ i.mentions) (v w : Value) :
    (m.attempt (.set name v)).RunsAlike (· ≠ name) (m.attempt (.set name w)) := by
  refine (h.set name v).runsAlike (h.set name w) ?_ (alike_set m name v w)
  refine ⟨rfl, rfl, hpc.symm, hflag.symm, ?_⟩
  intro i hi x hmem
  obtain ⟨r, hr⟩ := attempt_set_eq m name v
  obtain ⟨q, hq⟩ := attempt_set_eq m name w
  rw [hr, hq]
  cases x with
  | register other =>
      intro he
      exact hx i hi (he ▸ hmem)
  | label other => trivial
  | operation other => exact rfl

/--
**Registers that a program does not touch are isolated.**

Start any machine that has a program, whatever was done to it before. A register other than the
counter and the flag to which no instruction assigns and into which none restores holds what it held
before the start, after any number of turns. The flag changes only in a turn that executes a test, or
an instruction that assigns to the flag or restores it. And a register other than these two that no
instruction names can be set to anything before the start: two runs are then alike, turn by turn, in
the stage, the steps, the stack with its counts, the tape and every other register, and have the same
result.
-/
theorem untouched_isolated (h : Lived settings acts m) (hp : m.program = some p) {started : Machine}
    (hs : m.start = .ok started) :
    (∀ name, name ≠ "pc" → name ≠ "flag" → (∀ e, .assign name e ∉ p.instructions) →
        .restore name ∉ p.instructions →
        ∀ n, (started.runFor n).register? name = m.register? name)
      ∧ (∀ n, (started.runFor (n + 1)).register? "flag" ≠ (started.runFor n).register? "flag" →
          ∃ i, (started.runFor n).Executes i
            ∧ ((∃ e, i = .test e) ∨ (∃ e, i = .assign "flag" e) ∨ i = .restore "flag"))
      ∧ ∀ name, name ≠ "pc" → name ≠ "flag" →
          (∀ i ∈ p.instructions, .register name ∉ i.mentions) →
          ∀ v w, (m.attempt (.set name v)).RunsAlike (· ≠ name) (m.attempt (.set name w)) := by
  obtain ⟨hph, _, rfl⟩ := start_eq_ok hs
  have hloaded : m.Loaded p := ⟨h.recorded.covered, h.settled, hph, hp⟩
  obtain ⟨_, hplaced, hsettled⟩ := hloaded.start
  refine ⟨?_, ?_, ?_⟩
  · intro name hpc hflag hassign hrestore n
    have hw : ∀ i ∈ p.instructions, ¬i.Writes name := by
      intro i hi hwrites
      cases hwrites with
      | assign name e => exact hassign e hi
      | restore name => exact hrestore hi
      | test => exact hflag rfl
    have hbegin : m.begun.register? name = m.register? name :=
      State.get?_jump hloaded.covered.standard hpc 0
    exact (hplaced.register?_runFor hsettled hpc hw n).trans hbegin
  · intro n hne
    rw [runFor_tick] at hne
    have hn := hplaced.runFor n
    have hpc : "flag" ≠ "pc" := by decide
    rcases hn.register?_tick (hsettled.runFor hplaced n) hpc with hsame | ⟨i, hi, hwrites⟩
    · exact absurd hsame hne
    · exact ⟨i, hi, Instruction.writes_flag hwrites⟩
  · intro name hpc hflag hx v w
    exact hloaded.runsAlike_set hpc hflag hx v w

/-- Assigns to a register, and sets the flag by what emptying the stack answers. -/
def testing : List Item :=
  [.instruction (.assign "x" (.const (.bool true))),
    .instruction (.test (.op Operations.initializeStackName []))]

theorem untouched_isolated_testing :
    ∃ acts m started, Lived .default acts m ∧ m.start = .ok started
      ∧ (∀ n, (started.runFor n).register? "y" = some (.symbol "a"))
      ∧ (started.runFor 1).register? "flag" = some .unassigned
      ∧ (started.runFor 2).register? "flag" = some (.bool false)
      ∧ (∃ i, (started.runFor 1).Executes i
          ∧ ((∃ e, i = .test e) ∨ (∃ e, i = .assign "flag" e) ∨ i = .restore "flag"))
      ∧ ∀ v w, (m.attempt (.set "y" v)).RunsAlike (· ≠ "y") (m.attempt (.set "y" w)) := by
  obtain ⟨m₁, hx, m₂, hy, m₃, hprogram, m, hset, hm, p, hp, hi, started, hs, hbefore, hafter⟩ :
      ∃ m₁, (new .default).apply (.allocate "x") = .ok m₁
        ∧ ∃ m₂, m₁.apply (.allocate "y") = .ok m₂
        ∧ ∃ m₃, m₂.apply (.program testing) = .ok m₃
        ∧ ∃ m, m₃.apply (.set "y" (.symbol "a")) = .ok m
        ∧ m.register? "y" = some (.symbol "a")
        ∧ ∃ p, m.program = some p ∧ p.instructions = Item.instructions testing
        ∧ ∃ started, m.start = .ok started
        ∧ (started.runFor 1).register? "flag" = some .unassigned
        ∧ (started.runFor 2).register? "flag" = some (.bool false) :=
    ⟨_, by cbv, _, by cbv, _, by cbv, _, by cbv, by decide +kernel, _, by cbv, by cbv, _, by cbv,
      by decide +kernel, by decide +kernel⟩
  have h := (((Lived.new.request hx).request hy).request hprogram).request hset
  obtain ⟨hkept, hflag, halike⟩ := untouched_isolated h hp hs
  refine ⟨_, m, started, h, hs, ?_, hbefore, hafter, ?_, ?_⟩
  · intro n
    have hn := hkept "y" (by decide) (by decide) (by simp [hi, testing, Item.instructions])
      (by simp [hi, testing, Item.instructions]) n
    rw [hn, hm]
  · exact hflag 1 (by rw [hbefore, hafter]; simp)
  · refine halike "y" (by decide) (by decide) ?_
    simp [hi, testing, Item.instructions, Instruction.mentions, Instruction.reg?, Instruction.expr?,
      Expr.mentions, Expr.inputsMentions]

end Machine

end RegisterMachine
