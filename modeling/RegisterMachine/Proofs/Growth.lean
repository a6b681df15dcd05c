import RegisterMachine.Proofs.Alike

/-!
# A program while its machine grows

A program is made of numbers in tables that may grow until the machine is started. Registers are
allocated, operations are installed, under new names or under names that are taken, and further
controllers are tried and refused. None of this reaches the program that is there already: a number
that was given out stays what it was (`Grown`), so the names in the program are the same to the grown
machine as to the one that was not touched, and by `Loaded.runsAlike` the two run alike.

The operation that empties the stack is the one that every machine has from the start. It cannot be
bound to anything else either (`Native`).
-/

namespace RegisterMachine

/-! ## Names that a program has looked up -/

/-- A name that stands for something in this scope. -/
def Mention.Resolves (s : Scope) : Mention → Prop
  | .register name => ∃ id, s.register name = some id
  | .label name => ∃ p, s.label name = some p
  | .operation name => ∃ op, s.operation name = some op

/-- **An instruction that means something names nothing in vain.** -/
theorem Instruction.Means.resolves {s : Scope} {i : Instruction} {a : Action} (h : i.Means s a)
    (hs : ∀ {name id}, s.register name = some id → (id = Registers.counter ↔ name = "pc")) :
    ∀ x ∈ i.mentions, x.Resolves s := by
  have hknows : s.Knows (Mention.Resolves s) :=
    ⟨fun _ => Iff.rfl, fun _ => Iff.rfl, fun _ => Iff.rfl, hs⟩
  have hsettles := resolve_settles (i := i) hknows
  rw [resolve_eq_ok_iff.mpr h] at hsettles
  exact (allMet_demands.mp hsettles).names

/-! ## The operation that every machine has -/

namespace Operations

variable {t : Operations} {id : Nat} {b : Binding}

/-- A number that is bound keeps its binding. -/
theorem get?_installAll_of_some (h : t.get? id = some b) (bs : List Binding) :
    (t.installAll bs).get? id = some b := by
  induction bs generalizing t with
  | nil => exact h
  | cons c bs ih =>
      have hlt : id < t.size := (List.getElem?_eq_some_iff.mp h).1
      exact ih (t := t.install c) ((get?_install hlt c).trans h)

/-- The name of the operation that empties the stack stands for that operation, which is the first
one of the table. -/
structure Native (t : Operations) : Prop where
  number : t.lookup initializeStackName = some 0
  binding : t.get? 0 = some ⟨initializeStackName, .initializeStack⟩

theorem native_initial : initial.Native := ⟨by decide, rfl⟩

/-- **It cannot be bound to anything else**, whatever is installed. -/
theorem Native.installAll (h : t.Native) (bs : List Binding) : (t.installAll bs).Native :=
  ⟨lookup_installAll_of_some h.number bs, get?_installAll_of_some h.binding bs⟩

end Operations

namespace Machine

variable {m m' m'' : Machine} {p : Program} {settings : Settings} {acts : List (Act × Answer)}

theorem native_call (h : m.operations.Native) (c : Call) : (m.call c).operations.Native := by
  rcases call_cases m c with ⟨settings, hc⟩ | ⟨r, hc⟩ | hc
  · rw [hc]; exact h
  · generalize m.call c = m' at hc ⊢
    cases hc with
    | allocate | program | set => exact h
    | install => exact h.installAll _
  · rw [hc]; exact h

theorem Returns.operations {r : Except RunError Done} (hc : m.Covered) (h : m.Returns r m') :
    m'.operations = m.operations := by
  rcases h.cases with ⟨_, _, _, rfl⟩ | ⟨started, n, hs, _, rfl⟩
  · rfl
  · obtain ⟨p, _, hplaced⟩ := hc.start hs
    obtain ⟨_, _, rfl⟩ := start_eq_ok hs
    exact hplaced.operations_runFor n

/-- **Every machine has it**, whatever was done to it. -/
theorem Lived.native (h : Lived settings acts m) : m.operations.Native := by
  induction h with
  | new => exact Operations.native_initial
  | next h hd ih =>
      cases hd with
      | called c => exact native_call ih c
      | started hr => rw [hr.operations h.recorded.covered]; exact ih

/-! ## Growing -/

/-- What can become of a machine that is put together further, while its program stays: registers are
allocated or refused, operations are installed, and controllers are refused. -/
inductive Extended (m : Machine) : Machine → Prop where
  | refl : Extended m m
  | allocate {m' : Machine} (h : Extended m m') (name : String) :
      Extended m (m'.attempt (.allocate name))
  | install {m' : Machine} (h : Extended m m') (bindings : List Binding) :
      Extended m (m'.attempt (.install bindings))
  | refused {m' : Machine} (h : Extended m m') {items : List Item} {e : ConfigError}
      (he : m'.apply (.program items) = .error e) : Extended m (m'.attempt (.program items))

/-- One machine has what the other has, under the same names and numbers, and maybe more. -/
structure Grown (m m' : Machine) : Prop where
  settings : m'.settings = m.settings
  program : m'.program = m.program
  phase : m'.phase = m.phase
  steps : m'.steps = m.steps
  register : ∀ {name id}, m.state.registers.lookup name = some id →
    m'.state.registers.lookup name = some id
  content : ∀ id, m'.state.registers.get id = m.state.registers.get id
  operation : ∀ {name id}, m.operations.lookup name = some id →
    m'.operations.lookup name = some id
  binding : ∀ {id b}, m.operations.get? id = some b → m'.operations.get? id = some b
  stack : m'.state.stack = m.state.stack
  tape : m'.state.tape = m.state.tape

theorem Grown.refl (m : Machine) : m.Grown m :=
  ⟨rfl, rfl, rfl, rfl, id, fun _ => rfl, id, id, rfl, rfl⟩

theorem Grown.trans (h : m.Grown m') (h' : m'.Grown m'') : m.Grown m'' where
  settings := h'.settings.trans h.settings
  program := h'.program.trans h.program
  phase := h'.phase.trans h.phase
  steps := h'.steps.trans h.steps
  register hl := h'.register (h.register hl)
  content id := (h'.content id).trans (h.content id)
  operation hl := h'.operation (h.operation hl)
  binding hb := h'.binding (h.binding hb)
  stack := h'.stack.trans h.stack
  tape := h'.tape.trans h.tape

theorem grown_allocate (m : Machine) (name : String) : m.Grown (m.attempt (.allocate name)) := by
  cases h : m.apply (.allocate name) with
  | error e => rw [attempt_error h]; exact .refl m
  | ok m' =>
      rw [attempt_ok h]
      cases apply_eq_ok h with
      | allocate _ ha =>
          exact ⟨rfl, rfl, rfl, rfl, Registers.lookup_allocate_of_some ha,
            fun _ => Registers.get_allocate ha, id, id, rfl, rfl⟩

theorem grown_install (m : Machine) (bindings : List Binding) :
    m.Grown (m.attempt (.install bindings)) := by
  cases h : m.apply (.install bindings) with
  | error e => rw [attempt_error h]; exact .refl m
  | ok m' =>
      rw [attempt_ok h]
      cases apply_eq_ok h with
      | install _ =>
          exact ⟨rfl, rfl, rfl, rfl, id, fun _ => rfl,
            fun hl => Operations.lookup_installAll_of_some hl bindings,
            fun hb => Operations.get?_installAll_of_some hb bindings, rfl, rfl⟩

/-- **A machine that is put together further only grows.** -/
theorem Extended.grown (h : m.Extended m') : m.Grown m' := by
  induction h with
  | refl => exact .refl m
  | allocate h name ih => exact ih.trans (grown_allocate _ name)
  | install h bindings ih => exact ih.trans (grown_install _ bindings)
  | refused h he ih => rw [attempt_error he]; exact ih

theorem Loaded.attempt {r : Request} (h : m.Loaded p) (hg : m.Grown (m.attempt r)) :
    (m.attempt r).Loaded p :=
  ⟨h.covered.call (.request r), h.settled.call (.request r), hg.phase.trans h.phase,
    hg.program.trans h.program⟩

/-- What was ready to start still is, with the same program. -/
theorem Extended.loaded (hm : m.Extended m') (h : m.Loaded p) : m'.Loaded p := by
  induction hm with
  | refl => exact h
  | allocate hm name ih => exact ih.attempt (grown_allocate _ name)
  | install hm bindings ih => exact ih.attempt (grown_install _ bindings)
  | refused hm he ih => rw [attempt_error he]; exact ih

/-! ## The program that is there -/

/-- The registers that a machine has. -/
def HasRegister (m : Machine) (name : String) : Prop := ∃ id, m.state.registers.lookup name = some id

theorem Grown.alike (h : m.Grown m') : m.Alike m.HasRegister m' := by
  refine ⟨h.settings.symm, h.phase.symm, h.steps.symm, ?_, h.stack.symm, h.tape.symm⟩
  intro name hname
  obtain ⟨id, hl⟩ := hname
  rw [Registers.get?_eq_some hl, Registers.get?_eq_some (h.register hl), h.content]

/-- A name that a program has looked up is the same to the grown machine. -/
theorem Grown.shared (h : m.Grown m') {labels : Labels} {x : Mention}
    (hx : x.Resolves (m.scope labels)) : x.Shared m.HasRegister m.operations m'.operations := by
  cases x with
  | register name => exact hx
  | label name => trivial
  | operation name =>
      obtain ⟨op, hop⟩ := hx
      obtain ⟨b, hget, hfind, _⟩ := Operations.get?_of_lookup hop
      obtain ⟨b', hget', hfind', _⟩ := Operations.get?_of_lookup (h.operation hop)
      have hb : b = b' := Option.some.inj ((h.binding hget).symm.trans hget')
      show m.operations.find? name = m'.operations.find? name
      rw [hfind, hfind', hb]

/-- The program has the same text to both. -/
theorem Grown.sameText (h : m.Grown m') (hp : m.Loaded p) :
    SameText m.HasRegister m.operations m'.operations p p := by
  have hstandard := hp.covered.standard
  refine ⟨rfl, rfl, ⟨_, hstandard.counter⟩, ⟨_, hstandard.flag⟩, ?_⟩
  intro i hi x hx
  obtain ⟨line, hline, rfl⟩ := List.mem_map.mp hi
  have hmeans := hp.settled p hp.program line hline
  exact h.shared (hmeans.resolves hstandard.eq_pc x hx)

/--
**An installed program keeps its meaning.**

Take a machine that has a program and has not been started, however it came about, and go on putting
it together: allocate registers, install operations under any names, try other controllers that are
refused. Every register and every operation that had a number keeps it, and what the operation does;
the name of the operation that empties the stack stands for it as ever. And starting the machine now
is starting it before: the runs are the same in stage, steps, stack and tape, in the contents of all
registers that there were, and in the result.
-/
theorem growth_unobservable (h : Lived settings acts m) (hph : m.phase = .configuring)
    (hp : m.program = some p) (hm : m.Extended m') :
    (∀ name id, m.state.registers.lookup name = some id →
        m'.state.registers.lookup name = some id)
      ∧ (∀ name id, m.operations.lookup name = some id → m'.operations.lookup name = some id
          ∧ ∃ b, m.operations.get? id = some b ∧ m'.operations.get? id = some b)
      ∧ m'.operations.Native
      ∧ m.RunsAlike m.HasRegister m' := by
  have hg := hm.grown
  have hloaded : m.Loaded p := ⟨h.recorded.covered, h.settled, hph, hp⟩
  refine ⟨fun name id hl => hg.register hl, ?_, ?_, ?_⟩
  · intro name id hl
    obtain ⟨b, hget, _⟩ := Operations.get?_of_lookup hl
    exact ⟨hg.operation hl, b, hget, hg.binding hget⟩
  · exact ⟨hg.operation h.native.number, hg.binding h.native.binding⟩
  · exact hloaded.runsAlike (hm.loaded hloaded) (hg.sameText hloaded) hg.alike

/-- Puts a value aside and empties the stack. -/
def clearing : List Item :=
  [.instruction (.save "x"), .instruction (.perform (.op Operations.initializeStackName []))]

/-- What a host would bind to the name of the operation that empties the stack, and to a new name. -/
def latecomers : List Binding :=
  [⟨Operations.initializeStackName, .host fun _ => .error .divisionByZero⟩,
    ⟨"spare", .host fun _ => .error .divisionByZero⟩]

/-- A machine is put together further behind its program: a register is allocated, an operation is
installed, and a register, an operation and a controller are refused. -/
def putFurther (m : Machine) : Machine :=
  (((m.attempt (.allocate "y")).attempt (.allocate "x")).attempt (.install latecomers)).attempt
    (.program [.instruction (.save "z")])

theorem growth_unobservable_clearing :
    ∃ acts m, Lived .default acts m ∧ m.Extended m.putFurther
      ∧ m.putFurther.state.registers.lookup "y" = some 3
      ∧ m.putFurther.operations.lookup "spare" = some 1
      ∧ m.putFurther.operations.Native ∧ m.RunsAlike m.HasRegister m.putFurther := by
  obtain ⟨m₁, hx, m, hprogram, e, hrefused, hphase, p, hp, hy, hspare⟩ :
      ∃ m₁, (new .default).apply (.allocate "x") = .ok m₁
        ∧ ∃ m, m₁.apply (.program clearing) = .ok m
        ∧ ∃ e, (((m.attempt (.allocate "y")).attempt (.allocate "x")).attempt
            (.install latecomers)).apply (.program [.instruction (.save "z")]) = .error e
        ∧ m.phase = .configuring ∧ ∃ p, m.program = some p
        ∧ m.putFurther.state.registers.lookup "y" = some 3
        ∧ m.putFurther.operations.lookup "spare" = some 1 :=
    ⟨_, by cbv, _, by cbv, _, rfl, by cbv, _, by cbv, by decide +kernel, by decide +kernel⟩
  have h := (Lived.new.request hx).request hprogram
  have hm : m.Extended m.putFurther :=
    (((Extended.refl.allocate "y").allocate "x").install latecomers).refused hrefused
  obtain ⟨_, _, hnative, hruns⟩ := growth_unobservable h hphase hp hm
  exact ⟨_, m, h, hm, hy, hspare, hnative, hruns⟩

end Machine

end RegisterMachine
