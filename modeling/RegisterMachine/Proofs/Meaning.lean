import RegisterMachine.Proofs.History

/-!
# A program keeps its meaning

A program is made once, for the names that the machine had then, and is used for as long as the
machine lives. Names are added meanwhile but never taken away or given to something else, so whatever
an instruction meant when its program was made, it means ever after. `Settled` says that of a machine
at any moment of its life, with the names that it has at that moment; later arguments about an action
can speak of the instruction it was made of, by name.
-/

namespace RegisterMachine

/-! ## More names -/

/-- One scope knows what another knows, and the same about it. -/
structure Scope.Le (s s' : Scope) : Prop where
  register : ∀ {name id}, s.register name = some id → s'.register name = some id
  operation : ∀ {name id}, s.operation name = some id → s'.operation name = some id
  label : ∀ {name p}, s.label name = some p → s'.label name = some p

section More

variable {s s' : Scope}

theorem Expr.Denotes.mono {e : Expr} {o : Operand} (h : e.Denotes s o) (hs : s.Le s') :
    e.Denotes s' o := by
  cases h with
  | const v => exact .const v
  | reg h => exact .reg (hs.register h)
  | label h => exact .label (hs.label h)

theorem Application.Meant.mono {name : String} {inputs : List Expr} {a : Application}
    (h : a.Meant s name inputs) (hs : s.Le s') : a.Meant s' name inputs :=
  ⟨hs.operation h.op, h.inputs.imp fun _ _ he => he.mono hs⟩

/-- **More names change no meaning.** -/
theorem Instruction.Means.mono {i : Instruction} {a : Action} (h : i.Means s a) (hs : s.Le s') :
    i.Means s' a := by
  cases h with
  | assign ht hne he => exact .assign (hs.register ht) hne (he.mono hs)
  | assignApply ht hne ha => exact .assignApply (hs.register ht) hne (ha.mono hs)
  | test ha => exact .test (ha.mono hs)
  | branch h => exact .branch (hs.label h)
  | goto h => exact .goto (hs.label h)
  | gotoReg h => exact .gotoReg (hs.register h)
  | save h => exact .save (hs.register h)
  | restore ht hne => exact .restore (hs.register ht) hne
  | perform ha => exact .perform (ha.mono hs)

end More

theorem Operations.lookup_install_of_some {t : Operations} {name : String} {id : Nat}
    (h : t.lookup name = some id) (b : Binding) : (t.install b).lookup name = some id := by
  rw [lookup_install, h, Option.some_or]

/-- A name that stands for an operation keeps its number. -/
theorem Operations.lookup_installAll_of_some {t : Operations} {name : String} {id : Nat}
    (h : t.lookup name = some id) (bs : List Binding) :
    (t.installAll bs).lookup name = some id := by
  induction bs generalizing t with
  | nil => exact h
  | cons b bs ih => exact ih (lookup_install_of_some h b)

/-- A name that stands for a register keeps its number. -/
theorem Registers.lookup_allocate_of_some {r r' : Registers} {name other : String} {id : Nat}
    (ha : r.allocate name = .ok r') (h : r.lookup other = some id) : r'.lookup other = some id := by
  have hne : other ≠ name := by
    intro he
    rw [he, (allocate_eq_ok ha).1] at h
    exact absurd h (by simp)
  rw [lookup_allocate ha, if_neg hne]
  exact h

namespace Machine

variable {m m' : Machine} {p : Program} {settings : Settings} {acts : List (Act × Answer)}

/-- What names stand for in a program of this machine with these labels. -/
def scope (m : Machine) (labels : Labels) : Scope := .of m.state.registers m.operations labels

/-- Calls only ever add names. -/
theorem scope_le_call (m : Machine) (c : Call) (labels : Labels) :
    (m.scope labels).Le ((m.call c).scope labels) := by
  rcases call_cases m c with ⟨settings, hc⟩ | ⟨r, hc⟩ | hc
  · rw [hc]; exact ⟨id, id, id⟩
  · generalize m.call c = m' at hc ⊢
    cases hc with
    | allocate hph ha => exact ⟨Registers.lookup_allocate_of_some ha, id, id⟩
    | install hph => exact ⟨id, fun h => Operations.lookup_installAll_of_some h _, id⟩
    | program hph hp => exact ⟨id, id, id⟩
    | set hl => exact ⟨fun h => (Registers.lookup_set _ _ _ _).trans h, id, id⟩
  · rw [hc]; exact ⟨id, id, id⟩

/-- **A turn leaves all names alone.** -/
theorem Placed.scope_tick (h : m.Placed p) (labels : Labels) :
    m.tick.scope labels = m.scope labels := by
  cases hidle : m.idle with
  | true => rw [tick_of_idle hidle]
  | false =>
      obtain ⟨here, _, _, ht⟩ := h.turn (phase_eq_running hidle)
      generalize m.tick = m' at ht ⊢
      cases ht with
      | finish | exhausted | fault => rfl
      | step hl hx hr =>
          unfold scope Scope.of
          rw [funext (Action.run_eq_ok hr).frame.2]

theorem Placed.scope_runFor (h : m.Placed p) (n : Nat) (labels : Labels) :
    (m.runFor n).scope labels = m.scope labels := by
  induction n generalizing m with
  | zero => rfl
  | succ n ih => rw [runFor_succ, ih h.tick, h.scope_tick]

/-! ## For life -/

/-- Every line of the machine's program is what its instruction means, by the names there are. -/
def Settled (m : Machine) : Prop :=
  ∀ p, m.program = some p → ∀ l ∈ p.lines.toList, l.instruction.Means (m.scope p.labels) l.action

/-- A program that is kept is settled for as long as names are only added. -/
theorem Settled.of_le (h : m.Settled) (hp : m'.program = m.program)
    (hs : ∀ labels, (m.scope labels).Le (m'.scope labels)) : m'.Settled := by
  intro p hp' l hl
  rw [hp] at hp'
  exact (h p hp' l hl).mono (hs p.labels)

theorem settled_new (settings : Settings) : (new settings).Settled := by
  intro p hp
  exact absurd hp (by simp [new])

theorem Settled.call (h : m.Settled) (c : Call) : (m.call c).Settled := by
  have hs := scope_le_call m c
  rcases call_cases m c with ⟨settings, hc⟩ | ⟨r, hc⟩ | hc
  · exact h.of_le (by rw [hc]) hs
  · generalize m.call c = m' at hc hs ⊢
    cases hc with
    | allocate | install | set => exact h.of_le rfl hs
    -- a program that was just made is settled whatever there was before
    | program hph hok =>
        intro p hp l hl
        rw [← Option.some.inj hp] at hl ⊢
        rw [Program.labels_ofController hok]
        exact (Program.ofController_eq_ok hok).2 l hl
  · exact h.of_le (by rw [hc]) hs

theorem Settled.start (h : m.Settled) (hs : m.start = .ok m') : m'.Settled := by
  obtain ⟨_, _, rfl⟩ := start_eq_ok hs
  exact h.of_le rfl fun labels => ⟨fun hl => (Registers.lookup_set _ _ _ _).trans hl, id, id⟩

theorem Settled.tick (h : m.Settled) (hp : m.Placed p) : m.tick.Settled := by
  refine h.of_le (hp.tick.program.trans hp.program.symm) ?_
  intro labels
  rw [hp.scope_tick]
  exact ⟨id, id, id⟩

theorem Settled.runFor (h : m.Settled) (hp : m.Placed p) (n : Nat) : (m.runFor n).Settled := by
  refine h.of_le ((hp.runFor n).program.trans hp.program.symm) ?_
  intro labels
  rw [hp.scope_runFor]
  exact ⟨id, id, id⟩

theorem Settled.returns {r : Except RunError Done} (h : m.Settled) (hc : m.Covered)
    (hr : m.Returns r m') : m'.Settled := by
  rcases hr.cases with ⟨_, _, _, rfl⟩ | ⟨started, n, hs, _, rfl⟩
  · exact h
  · obtain ⟨p, _, hplaced⟩ := hc.start hs
    exact (h.start hs).runFor hplaced n

/-- **A program keeps its meaning**, whatever is done to its machine. -/
theorem Lived.settled (h : Lived settings acts m) : m.Settled := by
  induction h with
  | new => exact settled_new settings
  | next h hd ih =>
      cases hd with
      | called c => exact ih.call c
      | started hr => exact ih.returns h.recorded.covered hr

end Machine

end RegisterMachine
