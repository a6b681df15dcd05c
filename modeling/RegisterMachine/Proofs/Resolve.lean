import Mathlib.Data.List.Forall2
import RegisterMachine.Program.Basic
import RegisterMachine.Proofs.Success

/-!
# What resolution finds

An instruction that is resolved has become an action in one of nine ways, and what was looked up on
the way is all that the action is made of. The relation below lists the nine ways with every
look-up and every check in them; `resolve_eq_ok_iff` says that the list is complete. It is how later
files learn what a line of a program stands for.
-/

namespace RegisterMachine

/-- What an input stands for in a scope. -/
inductive Expr.Denotes (s : Scope) : Expr → Operand → Prop where
  | const (v : Value) : Denotes s (.const v) (.const v)
  | reg {name : String} {id : Nat} (h : s.register name = some id) :
      Denotes s (.reg name) (.reg id)
  | label {name : String} {p : Nat} (h : s.label name = some p) :
      Denotes s (.label name) (.label p)

/-- What an operation with its inputs stands for in a scope. -/
structure Application.Meant (s : Scope) (name : String) (inputs : List Expr) (a : Application) :
    Prop where
  op : s.operation name = some a.op
  inputs : List.Forall₂ (Expr.Denotes s) inputs a.inputs

/-- What an instruction does in a scope. -/
inductive Instruction.Means (s : Scope) : Instruction → Action → Prop where
  | assign {name : String} {id : Nat} {e : Expr} {o : Operand}
      (ht : s.register name = some id) (hne : id ≠ Registers.counter) (he : e.Denotes s o) :
      Means s (.assign name e) (.assign id (.operand o))
  | assignApply {name op : String} {id : Nat} {inputs : List Expr} {a : Application}
      (ht : s.register name = some id) (hne : id ≠ Registers.counter) (ha : a.Meant s op inputs) :
      Means s (.assign name (.op op inputs)) (.assign id (.apply a))
  | test {op : String} {inputs : List Expr} {a : Application} (ha : a.Meant s op inputs) :
      Means s (.test (.op op inputs)) (.test a)
  | branch {name : String} {p : Nat} (h : s.label name = some p) :
      Means s (.branch (.label name)) (.branch p)
  | goto {name : String} {p : Nat} (h : s.label name = some p) :
      Means s (.goto (.label name)) (.goto p)
  | gotoReg {name : String} {id : Nat} (h : s.register name = some id) :
      Means s (.goto (.reg name)) (.gotoReg id)
  | save {name : String} {id : Nat} (h : s.register name = some id) :
      Means s (.save name) (.save id)
  | restore {name : String} {id : Nat} (ht : s.register name = some id)
      (hne : id ≠ Registers.counter) : Means s (.restore name) (.restore id)
  | perform {op : String} {inputs : List Expr} {a : Application} (ha : a.Meant s op inputs) :
      Means s (.perform (.op op inputs)) (.perform a)

namespace Instruction

variable {s : Scope} {i : Instruction} {name : String} {id : Nat}

/-! ## Names -/

theorem register_eq_ok : i.register s name = .ok id ↔ s.register name = some id := by
  unfold register
  cases s.register name <;> simp

theorem position_eq_ok {p : Nat} : i.position s name = .ok p ↔ s.label name = some p := by
  unfold position
  cases s.label name <;> simp

theorem target_eq_ok :
    i.target s name = .ok id ↔ s.register name = some id ∧ id ≠ Registers.counter := by
  unfold target
  rw [bind_eq_ok]
  refine ⟨?_, ?_⟩
  · rintro ⟨j, hj, h⟩
    by_cases hc : j = Registers.counter
    · rw [if_pos hc] at h; exact absurd h (by simp [throw, throwThe, MonadExceptOf.throw, bind, Except.bind])
    · rw [if_neg hc] at h
      have hji : j = id := Except.ok.inj h
      subst hji
      exact ⟨register_eq_ok.mp hj, hc⟩
  · rintro ⟨h, hc⟩
    refine ⟨id, register_eq_ok.mpr h, ?_⟩
    rw [if_neg hc]
    rfl

/-! ## Inputs -/

theorem operand_eq_ok {e : Expr} {o : Operand} : i.operand s e = .ok o ↔ e.Denotes s o := by
  cases e with
  | const v =>
      refine ⟨?_, ?_⟩
      · intro h; rw [← Except.ok.inj h]; exact Expr.Denotes.const v
      · intro h; cases h; rfl
  | reg name =>
      unfold operand
      rw [map_eq_ok]
      refine ⟨?_, ?_⟩
      · rintro ⟨id, h, rfl⟩; exact Expr.Denotes.reg (register_eq_ok.mp h)
      · intro h; cases h with | reg h => exact ⟨_, register_eq_ok.mpr h, rfl⟩
  | label name =>
      unfold operand
      rw [map_eq_ok]
      refine ⟨?_, ?_⟩
      · rintro ⟨p, h, rfl⟩; exact Expr.Denotes.label (position_eq_ok.mp h)
      · intro h; cases h with | label h => exact ⟨_, position_eq_ok.mpr h, rfl⟩
  | op name inputs =>
      refine ⟨?_, ?_⟩
      · intro h; exact absurd h (by simp [operand])
      · intro h; cases h

theorem operands_eq_ok {es : List Expr} {os : List Operand} :
    i.operands s es = .ok os ↔ List.Forall₂ (Expr.Denotes s) es os := by
  induction es generalizing os with
  | nil =>
      refine ⟨?_, ?_⟩
      · intro h; rw [← Except.ok.inj h]; exact List.Forall₂.nil
      · intro h; cases h; rfl
  | cons e es ih =>
      unfold operands
      rw [bind_eq_ok]
      refine ⟨?_, ?_⟩
      · rintro ⟨o, ho, h⟩
        obtain ⟨os', hos, h⟩ := bind_eq_ok.mp h
        rw [← Except.ok.inj h]
        exact List.Forall₂.cons (operand_eq_ok.mp ho) (ih.mp hos)
      · intro h
        cases h with
        | cons ho hos =>
            exact ⟨_, operand_eq_ok.mpr ho, bind_eq_ok.mpr ⟨_, ih.mpr hos, rfl⟩⟩

theorem application_eq_ok {op : String} {inputs : List Expr} {a : Application} :
    i.application s op inputs = .ok a ↔ a.Meant s op inputs := by
  unfold application
  cases hop : s.operation op with
  | none =>
      refine ⟨?_, ?_⟩
      · intro h; exact absurd h (by simp)
      · intro h; exact absurd (h.op.symm.trans hop) (by simp)
  | some n =>
      dsimp only
      rw [map_eq_ok]
      refine ⟨?_, ?_⟩
      · rintro ⟨os, h, rfl⟩; exact ⟨hop, operands_eq_ok.mp h⟩
      · intro h
        refine ⟨a.inputs, operands_eq_ok.mpr h.inputs, ?_⟩
        rw [Option.some.inj (hop.symm.trans h.op)]

/-! ## Instructions -/

/-- **Resolution, taken apart.** An instruction is resolved exactly as the list of its meanings
says. -/
theorem resolve_eq_ok_iff {a : Action} : i.resolve s = .ok a ↔ i.Means s a := by
  refine ⟨?_, ?_⟩
  · intro h
    cases i with
    | assign name e =>
        obtain ⟨id, hid, h⟩ := bind_eq_ok.mp h
        obtain ⟨ht, hne⟩ := target_eq_ok.mp hid
        -- of all expressions only an operation is not resolved as an input
        cases e with
        | op op inputs =>
            obtain ⟨app, ha, h⟩ := bind_eq_ok.mp h
            rw [← Except.ok.inj h]
            exact Means.assignApply ht hne (application_eq_ok.mp ha)
        | const | reg | label =>
            obtain ⟨o, ho, h⟩ := bind_eq_ok.mp h
            rw [← Except.ok.inj h]
            exact Means.assign ht hne (operand_eq_ok.mp ho)
    | test e =>
        cases e with
        | op op inputs =>
            obtain ⟨app, ha, rfl⟩ := map_eq_ok.mp h
            exact Means.test (application_eq_ok.mp ha)
        | const | reg | label => exact absurd h (by simp [resolve])
    | branch e =>
        cases e with
        | label name =>
            obtain ⟨p, hp, rfl⟩ := map_eq_ok.mp h
            exact Means.branch (position_eq_ok.mp hp)
        | const | reg | op => exact absurd h (by simp [resolve])
    | goto e =>
        cases e with
        | label name =>
            obtain ⟨p, hp, rfl⟩ := map_eq_ok.mp h
            exact Means.goto (position_eq_ok.mp hp)
        | reg name =>
            obtain ⟨id, hid, rfl⟩ := map_eq_ok.mp h
            exact Means.gotoReg (register_eq_ok.mp hid)
        | const | op => exact absurd h (by simp [resolve])
    | save name =>
        obtain ⟨id, hid, rfl⟩ := map_eq_ok.mp h
        exact Means.save (register_eq_ok.mp hid)
    | restore name =>
        obtain ⟨id, hid, rfl⟩ := map_eq_ok.mp h
        obtain ⟨ht, hne⟩ := target_eq_ok.mp hid
        exact Means.restore ht hne
    | perform e =>
        cases e with
        | op op inputs =>
            obtain ⟨app, ha, rfl⟩ := map_eq_ok.mp h
            exact Means.perform (application_eq_ok.mp ha)
        | const | reg | label => exact absurd h (by simp [resolve])
  -- conversely, every look-up that a meaning speaks of is one that resolution makes
  · intro h
    cases h with
    | assign ht hne he =>
        refine bind_eq_ok.mpr ⟨_, target_eq_ok.mpr ⟨ht, hne⟩, ?_⟩
        cases he with
        | const v => rfl
        | reg h => exact bind_eq_ok.mpr ⟨_, operand_eq_ok.mpr (.reg h), rfl⟩
        | label h => exact bind_eq_ok.mpr ⟨_, operand_eq_ok.mpr (.label h), rfl⟩
    | assignApply ht hne ha =>
        refine bind_eq_ok.mpr ⟨_, target_eq_ok.mpr ⟨ht, hne⟩, ?_⟩
        exact bind_eq_ok.mpr ⟨_, application_eq_ok.mpr ha, rfl⟩
    | test ha => exact map_eq_ok.mpr ⟨_, application_eq_ok.mpr ha, rfl⟩
    | branch h => exact map_eq_ok.mpr ⟨_, position_eq_ok.mpr h, rfl⟩
    | goto h => exact map_eq_ok.mpr ⟨_, position_eq_ok.mpr h, rfl⟩
    | gotoReg h => exact map_eq_ok.mpr ⟨_, register_eq_ok.mpr h, rfl⟩
    | save h => exact map_eq_ok.mpr ⟨_, register_eq_ok.mpr h, rfl⟩
    | restore ht hne => exact map_eq_ok.mpr ⟨_, target_eq_ok.mpr ⟨ht, hne⟩, rfl⟩
    | perform ha => exact map_eq_ok.mpr ⟨_, application_eq_ok.mpr ha, rfl⟩

end Instruction

/-! ## Programs -/

namespace Program

variable {s : Scope}

/-- **Lines, taken apart.** The lines of a program carry the instructions in order, each with what it
means. -/
theorem resolveAll_eq_ok {is : List Instruction} {lines : List Line}
    (h : resolveAll s is = .ok lines) :
    lines.map Line.instruction = is ∧ ∀ l ∈ lines, l.instruction.Means s l.action := by
  induction is generalizing lines with
  | nil => rw [← Except.ok.inj h]; exact ⟨rfl, by simp⟩
  | cons i is ih =>
      unfold resolveAll at h
      obtain ⟨a, ha, h⟩ := bind_eq_ok.mp h
      obtain ⟨rest, hr, h⟩ := bind_eq_ok.mp h
      obtain ⟨hi, hm⟩ := ih hr
      rw [← Except.ok.inj h]
      refine ⟨by rw [List.map_cons, hi], ?_⟩
      intro l hl
      rcases List.mem_cons.mp hl with rfl | hl
      · exact Instruction.resolve_eq_ok_iff.mp ha
      · exact hm l hl

/-- **Programs, taken apart.** -/
theorem ofController_eq_ok {registers : Registers} {operations : Operations} {items : List Item}
    {p : Program} (h : ofController registers operations items = .ok p) :
    p.lines.toList.map Line.instruction = Item.instructions items
      ∧ ∀ l ∈ p.lines.toList,
          l.instruction.Means (.of registers operations (Labels.ofItems items)) l.action := by
  unfold ofController at h
  obtain ⟨lines, hl, h⟩ := bind_eq_ok.mp h
  rw [← Except.ok.inj h]
  exact resolveAll_eq_ok hl

theorem labels_ofController {registers : Registers} {operations : Operations} {items : List Item}
    {p : Program} (h : ofController registers operations items = .ok p) :
    p.labels = Labels.ofItems items := by
  unfold ofController at h
  obtain ⟨lines, _, h⟩ := bind_eq_ok.mp h
  rw [← Except.ok.inj h]

end Program

end RegisterMachine
