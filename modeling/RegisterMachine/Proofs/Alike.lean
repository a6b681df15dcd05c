import RegisterMachine.Proofs.Executing
import RegisterMachine.Proofs.Faults
import RegisterMachine.Proofs.Ready

/-!
# Two machines side by side

Two machines may run programs of the same instructions and yet not the same programs: the numbers of
registers and operations in their actions are those of their own tables. What they have in common is
seen by name. Here a set of register names is *seen*; the machines are alike if the contents under
these names, the stack, the tape, the steps and the stage are the same, whatever is in other registers
and whatever the numbers are.

Being alike lasts. If every register that the instructions name is seen, and every operation that
they name is bound to the same thing on both sides, then an instruction does alike to states that are
alike (`Instruction.Means.tally`), and so do a turn (`Paired.tick`), a run (`Paired.runFor`) and a start
(`Loaded.runsAlike`).
-/

namespace RegisterMachine

/-! ## Two results -/

/-- Two results that are related, or the same error twice. -/
inductive Tally {ε α β : Type} (R : α → β → Prop) : Except ε α → Except ε β → Prop where
  | ok {a : α} {b : β} (h : R a b) : Tally R (.ok a) (.ok b)
  | error (e : ε) : Tally R (.error e) (.error e)

theorem Tally.bind {ε α β α' β' : Type} {R : α → β → Prop} {Q : α' → β' → Prop} {x : Except ε α}
    {y : Except ε β} {f : α → Except ε α'} {g : β → Except ε β'} (h : Tally R x y)
    (hf : ∀ a b, R a b → Tally Q (f a) (g b)) : Tally Q (x >>= f) (y >>= g) := by
  cases h with
  | ok h => exact hf _ _ h
  | error e => exact .error e

/-! ## States that are alike -/

/-- Two states with the same contents of the registers seen, the same stack and the same tape. -/
structure State.Alike (seen : String → Prop) (s s' : State) : Prop where
  registers : ∀ name, seen name → s.registers.get? name = s'.registers.get? name
  stack : s.stack = s'.stack
  tape : s.tape = s'.tape

/-- States that are alike, of two machines. -/
structure State.Matched (seen : String → Prop) (s s' : State) : Prop where
  alike : s.Alike seen s'
  left : s.registers.Standard
  right : s'.registers.Standard

/-- What a name must be for two machines with these operations to read the same in it: a register
that is seen, or an operation that is bound to the same thing. -/
def Mention.Shared (seen : String → Prop) (ops ops' : Operations) : Mention → Prop
  | .register name => seen name
  | .label _ => True
  | .operation name => ops.find? name = ops'.find? name

variable {seen : String → Prop} {ops ops' : Operations} {s s' : State} {labels : Labels}

namespace State

variable {name : String} {id id' : Nat}

/-- A register that is seen holds the same on both sides. -/
theorem Alike.get_eq (h : s.Alike seen s') (hseen : seen name)
    (hl : s.registers.lookup name = some id) (hl' : s'.registers.lookup name = some id') :
    s.registers.get id = s'.registers.get id' := by
  have hname := h.registers name hseen
  rw [Registers.get?_eq_some hl, Registers.get?_eq_some hl'] at hname
  exact Option.some.inj hname

/-- A register may be changed on both sides, whether it is seen or not. -/
theorem Matched.set (h : s.Matched seen s') (hl : s.registers.lookup name = some id)
    (hl' : s'.registers.lookup name = some id') (v : Value) :
    (s.set id v).Matched seen (s'.set id' v) := by
  refine ⟨⟨?_, h.alike.stack, h.alike.tape⟩, h.left.set id v, h.right.set id' v⟩
  intro other hother
  rw [set_registers, set_registers, Registers.get?_set hl, Registers.get?_set hl']
  by_cases ho : other = name
  · rw [if_pos ho, if_pos ho]
  · rw [if_neg ho, if_neg ho]
    exact h.alike.registers other hother

theorem Matched.jump (h : s.Matched seen s') (k : Nat) : (s.jump k).Matched seen (s'.jump k) :=
  h.set h.left.counter h.right.counter (.position k)

theorem Matched.with_stack (h : s.Matched seen s') (stack : Stack) :
    Matched seen { s with stack } { s' with stack } :=
  ⟨⟨h.alike.registers, rfl, h.alike.tape⟩, h.left, h.right⟩

theorem Matched.with_tape (h : s.Matched seen s') (tape : Array Effect) :
    Matched seen { s with tape } { s' with tape } :=
  ⟨⟨h.alike.registers, h.alike.stack, rfl⟩, h.left, h.right⟩

end State

/-! ## What instructions do to them -/

theorem Expr.Denotes.value_eq {e : Expr} {o o' : Operand}
    (h : e.Denotes (.of s.registers ops labels) o) (h' : e.Denotes (.of s'.registers ops' labels) o')
    (hs : s.Alike seen s') (hx : ∀ x ∈ e.mentions, x.Shared seen ops ops') :
    o.value s.registers = o'.value s'.registers := by
  cases h with
  | const v => cases h'; rfl
  | reg hl =>
      cases h' with
      | reg hl' => exact hs.get_eq (hx _ List.mem_cons_self) hl hl'
  | label hl =>
      cases h' with
      | label hl' => exact congrArg Value.position (Option.some.inj (hl.symm.trans hl'))

theorem Expr.Denotes.values_eq {es : List Expr} {os os' : List Operand}
    (h : List.Forall₂ (Expr.Denotes (.of s.registers ops labels)) es os)
    (h' : List.Forall₂ (Expr.Denotes (.of s'.registers ops' labels)) es os') (hs : s.Alike seen s')
    (hx : ∀ x ∈ Expr.inputsMentions es, x.Shared seen ops ops') :
    os.map (Operand.value s.registers) = os'.map (Operand.value s'.registers) := by
  induction h generalizing os' with
  | nil => cases h'; rfl
  | cons he _ ih =>
      cases h' with
      | cons he' hes' =>
          have hhead := he.value_eq he' hs fun x hmem => hx x (List.mem_append_left _ hmem)
          have htail := ih hes' fun x hmem => hx x (List.mem_append_right _ hmem)
          rw [List.map_cons, List.map_cons, hhead, htail]

/-- Two answers of operations to states that are alike: the same value, and states alike again. -/
structure State.Answered (seen : String → Prop) (s s' : State) (x y : Value × State) : Prop where
  value : x.1 = y.1
  state : x.2.Matched seen y.2
  left : x.2.registers = s.registers
  right : y.2.registers = s'.registers

/-- **The same operation answers alike.** -/
theorem Application.Meant.tally {name : String} {inputs : List Expr} {a a' : Application}
    (h : a.Meant (.of s.registers ops labels) name inputs)
    (h' : a'.Meant (.of s'.registers ops' labels) name inputs) (hs : s.Matched seen s')
    (hx : ∀ x ∈ (Expr.op name inputs).mentions, x.Shared seen ops ops') :
    Tally (State.Answered seen s s') (a.run ops s) (a'.run ops' s') := by
  obtain ⟨b, hget, hfind, _⟩ := Operations.get?_of_lookup h.op
  obtain ⟨b', hget', hfind', _⟩ := Operations.get?_of_lookup h'.op
  have hsame : ops.find? name = ops'.find? name := hx _ List.mem_cons_self
  rw [hfind, hfind', Option.some.injEq] at hsame
  have hvalues := Expr.Denotes.values_eq h.inputs h'.inputs hs.alike
    fun x hmem => hx x (List.mem_cons_of_mem _ hmem)
  unfold Application.run
  rw [hget, hget', ← hsame, ← hvalues]
  obtain ⟨bound, operation⟩ := b
  cases operation with
  | initializeStack => exact .ok ⟨rfl, hs.with_stack .empty, rfl, rfl⟩
  | host f =>
      dsimp only
      cases f (a.inputs.map (Operand.value s.registers)) with
      | error e => exact .error _
      | ok reply =>
          rw [← hs.alike.tape]
          exact .ok ⟨rfl, hs.with_tape _, rfl, rfl⟩

/-- Assigning where the values to be assigned were found alike. -/
theorem Source.tally_assign {name : String} {id id' size here : Nat} {x y : Source}
    (h : Tally (State.Answered seen s s') (x.run ops s) (y.run ops' s'))
    (hl : s.registers.lookup name = some id) (hl' : s'.registers.lookup name = some id') :
    Tally (State.Matched seen) ((Action.assign id x).run ops size here s)
      ((Action.assign id' y).run ops' size here s') := by
  refine h.bind fun ⟨v, t⟩ ⟨v', t'⟩ ht => ?_
  obtain rfl : v = v' := ht.value
  have hl : t.registers.lookup name = some id := by rw [ht.left]; exact hl
  have hl' : t'.registers.lookup name = some id' := by rw [ht.right]; exact hl'
  exact .ok ((ht.state.set hl hl' v).jump (here + 1))

/-- **An instruction does alike to states that are alike**, whatever the numbers in its actions. -/
theorem Instruction.Means.tally {i : Instruction} {a a' : Action}
    (h : i.Means (.of s.registers ops labels) a) (h' : i.Means (.of s'.registers ops' labels) a')
    (hs : s.Matched seen s') (hflag : seen "flag") (hx : ∀ x ∈ i.mentions, x.Shared seen ops ops')
    (size here : Nat) :
    Tally (State.Matched seen) (a.run ops size here s) (a'.run ops' size here s') := by
  have hexpr : ∀ e, i.expr? = some e → ∀ x ∈ e.mentions, x.Shared seen ops ops' := by
    intro e he x hmem
    have hmem' : x ∈ i.expr?.toList.flatMap Expr.mentions :=
      List.mem_flatMap.mpr ⟨e, Option.mem_toList.mpr he, hmem⟩
    exact hx x (List.mem_append_right _ hmem')
  cases h with
  | assign ht hne he =>
      cases h' with
      | assign ht' _ he' =>
          have hv := he.value_eq he' hs.alike (hexpr _ rfl)
          exact Source.tally_assign (.ok ⟨hv, hs, rfl, rfl⟩) ht ht'
      | assignApply => cases he
  | assignApply ht hne ha =>
      cases h' with
      | assign _ _ he' => cases he'
      | assignApply ht' _ ha' => exact Source.tally_assign (ha.tally ha' hs (hexpr _ rfl)) ht ht'
  | test ha =>
      cases h' with
      | test ha' =>
          refine (ha.tally ha' hs (hexpr _ rfl)).bind fun ⟨v, t⟩ ⟨v', t'⟩ ht => ?_
          obtain rfl : v = v' := ht.value
          have hset := ht.state.set ht.state.left.flag ht.state.right.flag (.bool v.isTrue)
          exact .ok (hset.jump (here + 1))
  | branch hl =>
      cases h' with
      | branch hl' =>
          have hget := hs.alike.get_eq hflag hs.left.flag hs.right.flag
          have hp := Option.some.inj (hl.symm.trans hl')
          simp only [Action.run]
          rw [← hget, ← hp]
          exact .ok (hs.jump _)
  | goto hl =>
      cases h' with
      | goto hl' =>
          have hp := Option.some.inj (hl.symm.trans hl')
          simp only [Action.run]
          rw [← hp]
          exact .ok (hs.jump _)
  | @gotoReg name id hl =>
      cases h' with
      | gotoReg hl' =>
          have hseen : seen name := hx (.register name) List.mem_cons_self
          have hget := hs.alike.get_eq hseen hl hl'
          simp only [Action.run]
          rw [← hget]
          -- whether the register holds a place to go to is the same question on both sides
          split
          · next p _ =>
              by_cases hp : p ≤ size
              · rw [if_pos hp, if_pos hp]
                exact .ok (hs.jump p)
              · rw [if_neg hp, if_neg hp]
                exact .error _
          · exact .error _
  | @save name id hl =>
      cases h' with
      | save hl' =>
          have hseen : seen name := hx (.register name) List.mem_cons_self
          have hget := hs.alike.get_eq hseen hl hl'
          simp only [Action.run]
          rw [← hget, ← hs.alike.stack]
          exact .ok ((hs.with_stack _).jump (here + 1))
  | restore ht hne =>
      cases h' with
      | restore ht' =>
          simp only [Action.run]
          rw [← hs.alike.stack]
          cases s.stack.pop with
          | error f => exact .error f
          | ok x => exact .ok (((hs.with_stack x.2).set ht ht' x.1).jump (here + 1))
  | perform ha =>
      cases h' with
      | perform ha' =>
          refine (ha.tally ha' hs (hexpr _ rfl)).bind fun ⟨v, t⟩ ⟨v', t'⟩ ht => ?_
          exact .ok (ht.state.jump (here + 1))

/-! ## Turns and runs -/

namespace Machine

variable {m m' : Machine} {p p' : Program}

/-- Two machines that look the same to whoever sees only these registers. -/
structure Alike (seen : String → Prop) (m m' : Machine) : Prop where
  settings : m.settings = m'.settings
  phase : m.phase = m'.phase
  steps : m.steps = m'.steps
  state : m.state.Alike seen m'.state

theorem Alike.idle (h : m.Alike seen m') : m.idle = m'.idle := by
  unfold Machine.idle
  rw [h.phase]

theorem Alike.exhausted (h : m.Alike seen m') : m.exhausted = m'.exhausted := by
  unfold Machine.exhausted
  rw [h.settings, h.steps]

theorem Alike.outcome (h : m.Alike seen m') : m.outcome = m'.outcome := by
  unfold Machine.outcome
  rw [h.phase, h.steps, h.state.stack]

theorem Alike.finish (h : m.Alike seen m') : m.finish.Alike seen m'.finish := by
  refine ⟨h.settings, ?_, h.steps, h.state⟩
  unfold Machine.finish
  rw [h.settings, h.state.stack]

/-- Two programs of the same instructions, in which every name is the same to the one as it is to
the other. -/
structure SameText (seen : String → Prop) (ops ops' : Operations) (p p' : Program) : Prop where
  instructions : p.instructions = p'.instructions
  labels : p.labels = p'.labels
  counter : seen "pc"
  flag : seen "flag"
  shared : ∀ i ∈ p.instructions, ∀ x ∈ i.mentions, x.Shared seen ops ops'

/-- Two machines that are alike and run programs of the same text. -/
structure Paired (seen : String → Prop) (p p' : Program) (m m' : Machine) : Prop where
  left : m.Placed p
  right : m'.Placed p'
  settled : m.Settled
  settled' : m'.Settled
  text : SameText seen m.operations m'.operations p p'
  alike : m.Alike seen m'

theorem Paired.matched (h : Paired seen p p' m m') : m.state.Matched seen m'.state :=
  ⟨h.alike.state, h.left.standard, h.right.standard⟩

theorem Paired.size (h : Paired seen p p' m m') : p.size = p'.size := by
  have hlen := congrArg List.length h.text.instructions
  unfold Program.instructions at hlen
  rwa [List.length_map, List.length_map, Array.length_toList, Array.length_toList] at hlen

/-- Lines at the same position carry the same instruction. -/
theorem Paired.line (h : Paired seen p p' m m') {here : Nat} {line : Line}
    (hl : p.lines[here]? = some line) :
    ∃ line', p'.lines[here]? = some line' ∧ line'.instruction = line.instruction := by
  have hi : p.instructions[here]? = some line.instruction :=
    Program.instructions_getElem?.mpr ⟨line, hl, rfl⟩
  rw [h.text.instructions] at hi
  exact Program.instructions_getElem?.mp hi

/-- Executing lines with the same instruction. -/
theorem Paired.step (h : Paired seen p p' m m') {here : Nat} {line line' : Line}
    (hl : p.lines[here]? = some line) (hl' : p'.lines[here]? = some line')
    (hi : line'.instruction = line.instruction) :
    (m.step p.size here line).Alike seen (m'.step p'.size here line') := by
  have hmem := Program.mem_lines hl
  have hmem' := Program.mem_lines hl'
  have hmeans := h.settled p h.left.program line hmem
  have hmeans' := h.settled' p' h.right.program line' hmem'
  rw [hi, ← h.text.labels] at hmeans'
  have hx := h.text.shared line.instruction (List.mem_map_of_mem hmem)
  have htally := hmeans.tally hmeans' h.matched h.text.flag hx p.size here
  rw [step_eq, step_eq, ← h.size, hi]
  revert htally
  generalize line.action.run m.operations p.size here m.state = x
  generalize line'.action.run m'.operations p.size here m'.state = x'
  intro htally
  cases htally with
  | ok hs => exact ⟨h.alike.settings, h.alike.phase, congrArg (· + 1) h.alike.steps, hs.alike⟩
  | error f => exact ⟨h.alike.settings, rfl, congrArg (· + 1) h.alike.steps, h.alike.state⟩

/-- **A turn does alike to machines that are alike.** -/
theorem Paired.tick_alike (h : Paired seen p p' m m') : m.tick.Alike seen m'.tick := by
  cases hidle : m.idle with
  | true =>
      rw [tick_of_idle hidle, tick_of_idle (h.alike.idle.symm.trans hidle)]
      exact h.alike
  | false =>
      have hph := phase_eq_running hidle
      have hph' : m'.phase = .running := h.alike.phase.symm.trans hph
      obtain ⟨here, _, hc, _⟩ := h.left.turn hph
      have hc' : m'.state.registers.get Registers.counter = .position here := by
        rw [← h.alike.state.get_eq h.text.counter h.left.standard.counter h.right.standard.counter, hc]
      cases hl : p.lines[here]? with
      | none =>
          have hl' : p'.lines[here]? = none := by
            have hle : p.size ≤ here := Array.getElem?_eq_none_iff.mp hl
            rw [h.size] at hle
            exact Array.getElem?_eq_none_iff.mpr hle
          rw [tick_end hph h.left.program hc hl, tick_end hph' h.right.program hc' hl']
          exact h.alike.finish
      | some line =>
          obtain ⟨line', hl', hi⟩ := h.line hl
          cases hx : m.exhausted with
          | some limit =>
              have hx' := h.alike.exhausted.symm.trans hx
              rw [tick_exhausted hph h.left.program hc hl hx,
                tick_exhausted hph' h.right.program hc' hl' hx']
              exact ⟨h.alike.settings, rfl, h.alike.steps, h.alike.state⟩
          | none =>
              have hx' := h.alike.exhausted.symm.trans hx
              rw [tick_line hph h.left.program hc hl hx,
                tick_line hph' h.right.program hc' hl' hx']
              exact h.step hl hl' hi

theorem Paired.tick (h : Paired seen p p' m m') : Paired seen p p' m.tick m'.tick where
  left := h.left.tick
  right := h.right.tick
  settled := h.settled.tick h.left
  settled' := h.settled'.tick h.right
  text := by rw [h.left.operations_tick, h.right.operations_tick]; exact h.text
  alike := h.tick_alike

/-- **Runs stay alike**, for any number of turns. -/
theorem Paired.runFor (h : Paired seen p p' m m') (n : Nat) :
    Paired seen p p' (m.runFor n) (m'.runFor n) := by
  induction n with
  | zero => exact h
  | succ n ih => rw [runFor_tick, runFor_tick]; exact ih.tick

/-! ## Before the start -/

/-- Setting a register, by name, is the same change to both, be it seen or not. -/
theorem Alike.set (h : m.Alike seen m') (name : String) (v : Value) :
    (m.attempt (.set name v)).Alike seen (m'.attempt (.set name v)) := by
  have hregisters : ∀ other, seen other → (m.attempt (.set name v)).register? other
      = (m'.attempt (.set name v)).register? other := by
    intro other hother
    have hsame : m.register? other = m'.register? other := h.state.registers other hother
    rw [register?_attempt_set, register?_attempt_set]
    by_cases ho : other = name
    · rw [if_pos ho, if_pos ho, ← ho, hsame]
    · rw [if_neg ho, if_neg ho, hsame]
  obtain ⟨r, hr⟩ := attempt_set_eq m name v
  obtain ⟨r', hr'⟩ := attempt_set_eq m' name v
  rw [hr, hr'] at hregisters ⊢
  exact ⟨h.settings, h.phase, h.steps, hregisters, h.state.stack, h.state.tape⟩

theorem Alike.setAll (h : m.Alike seen m') (sets : List (String × Value)) :
    (m.setAll sets).Alike seen (m'.setAll sets) := by
  induction sets generalizing m m' with
  | nil => exact h
  | cons set sets ih => exact ih (h.set set.1 set.2)

/-! ## Starts -/

/-- Both machines can be started, and nobody who sees only these registers can tell one run from the
other: not by looking at any moment, and not by the result. -/
structure RunsAlike (seen : String → Prop) (m m' : Machine) : Prop where
  runs : ∃ started started', m.start = .ok started ∧ m'.start = .ok started'
    ∧ ∀ n, (started.runFor n).Alike seen (started'.runFor n)
  returns : ∀ r after, m.Returns r after → ∃ after', m'.Returns r after' ∧ after.Alike seen after'
  returns' : ∀ r after', m'.Returns r after' → ∃ after, m.Returns r after ∧ after.Alike seen after'

/-- Runs that are alike at every moment have the same result or none. -/
theorem runsAlike_of_start {started started' : Machine} (hs : m.start = .ok started)
    (hs' : m'.start = .ok started')
    (h : ∀ n, (started.runFor n).Alike seen (started'.runFor n)) : m.RunsAlike seen m' := by
  refine ⟨⟨started, started', hs, hs', h⟩, ?_, ?_⟩
  · intro r after hr
    obtain ⟨n, hout, rfl⟩ := (returns_iff_of_ok hs).mp hr
    exact ⟨_, .of_ok hs' ((h n).outcome.symm.trans hout), h n⟩
  · intro r after hr
    obtain ⟨n, hout, rfl⟩ := (returns_iff_of_ok hs').mp hr
    exact ⟨_, .of_ok hs ((h n).outcome.trans hout), h n⟩

/-- **Machines that are alike when they are started run alike**, if their programs have the same
text. -/
theorem Loaded.runsAlike (h : m.Loaded p) (h' : m'.Loaded p')
    (ht : SameText seen m.operations m'.operations p p') (ha : m.Alike seen m') :
    m.RunsAlike seen m' := by
  obtain ⟨hs, hplaced, hsettled⟩ := h.start
  obtain ⟨hs', hplaced', hsettled'⟩ := h'.start
  have hmatched : m.state.Matched seen m'.state :=
    ⟨ha.state, h.covered.standard, h'.covered.standard⟩
  have hbegin : m.begun.Alike seen m'.begun :=
    ⟨ha.settings, rfl, ha.steps, (hmatched.jump 0).alike⟩
  have hpaired : Paired seen p p' m.begun m'.begun := ⟨hplaced, hplaced', hsettled, hsettled', ht, hbegin⟩
  exact runsAlike_of_start hs hs' fun n => (hpaired.runFor n).alike

end Machine

end RegisterMachine
