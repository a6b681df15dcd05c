import Mathlib
import RegisterMachine.Proofs.Executing
import RegisterMachine.Proofs.Limits
import RegisterMachine.Proofs.Ready

/-!
# Programs that only go forward end

A run has no bound of its own: it ends when the counter leaves the program, and the counter is a
register that jumps move about. In a program that jumps by labels only, and with each of them to a
place further down, every turn moves the counter further down too. So no position is executed twice,
and a run ends before it has taken as many turns as the program has instructions and one more.

What the argument needs of a turn is that it either ends the run or moves the counter down
(`Placed.counter_lt_tick`); the invariant of a run is that the counter is behind everything that was
executed (`Descended`). Failures end a run as well as the end of the program does, so nothing is
asked of the operations or of what the registers hold.
-/

namespace RegisterMachine

/-- A program that jumps by labels alone, and by each of them further down. -/
structure Program.Forward (p : Program) : Prop where
  labels_only : ∀ name, Instruction.goto (.reg name) ∉ p.instructions
  downwards : ∀ {here k : Nat} {name : String},
    p.instructions[here]? = some (.branch (.label name))
        ∨ p.instructions[here]? = some (.goto (.label name)) →
      p.labels.lookup name = some k → here < k

/-- **An action of a forward program moves the counter further down.** -/
theorem Action.Performs.counter_gt {p : Program} {s : Scope} {ops : Operations} {i : Instruction}
    {action : Action} {size here : Nat} {st st' : State} (hf : p.Forward)
    (hlabel : s.label = p.labels.lookup) (hi : p.instructions[here]? = some i)
    (hm : i.Means s action) (h0 : Registers.counter < st.registers.size)
    (h : action.Performs ops size here st st') :
    ∃ k, here < k ∧ st'.registers.get Registers.counter = .position k := by
  obtain ⟨k, hk, hlead⟩ := h.counter_eq h0
  refine ⟨k, ?_, hk⟩
  rcases hlead with rfl | rfl | rfl | ⟨id, rfl, _⟩
  · exact Nat.lt_succ_self here
  · cases hm with
    | branch hl => exact hf.downwards (Or.inl hi) (hlabel ▸ hl)
  · cases hm with
    | goto hl => exact hf.downwards (Or.inr hi) (hlabel ▸ hl)
  -- the one jump whose target is not in the program
  · cases hm with
    | gotoReg hr => exact absurd (List.mem_of_getElem? hi) (hf.labels_only _)

namespace Machine

variable {m : Machine} {p : Program} {settings : Settings} {acts : List (Act × Answer)}

/-! ## The positions that a run executes -/

/-- The position of the instruction that the next turn executes. -/
def position? (m : Machine) : Option Nat := m.next?.map Prod.fst

/-- The positions of the instructions that the first turns execute, so many of them, in order. -/
def positions (m : Machine) (n : Nat) : List Nat := m.seen position? n

/-- Only what is in the program is executed. -/
theorem Placed.positions_lt (h : m.Placed p) (hs : m.Settled) (n : Nat) :
    ∀ k ∈ m.positions n, k < p.size := by
  intro k hk
  obtain ⟨t, _, hn⟩ := List.mem_filterMap.mp hk
  obtain ⟨⟨here, i⟩, hnext, rfl⟩ := Option.map_eq_some_iff.mp hn
  obtain ⟨_, action, hat, _⟩ := (h.runFor t).tick_of_next? (hs.runFor h t) hnext
  exact hat.lt

/-- **The steps of a run are the positions that it executes.** -/
theorem Placed.steps_eq_positions (h : m.Placed p) (hs : m.Settled) (n : Nat) :
    (m.runFor n).steps = m.steps + (m.positions n).length := by
  induction n with
  | zero => rfl
  | succ n ih =>
      unfold positions at ih ⊢
      rw [runFor_tick, seen_succ, List.length_append, position?]
      cases hn : (m.runFor n).next? with
      | none =>
          rw [((h.runFor n).tick_of_next?_none hn).2.1, ih]
          rfl
      | some x =>
          obtain ⟨_, action, _, ht⟩ := (h.runFor n).tick_of_next? (hs.runFor h n) hn
          rw [ht, (step_steps _ _ _).2, ih]
          rfl

/-! ## Further down with every turn -/

/-- **A turn of a forward program** ends the run or moves the counter further down. -/
theorem Placed.counter_lt_tick {here : Nat} {i : Instruction} (h : m.Placed p) (hs : m.Settled)
    (hf : p.Forward) (hn : m.next? = some (here, i)) (hph : m.tick.phase = .running) :
    ∃ k, here < k ∧ m.tick.state.registers.get Registers.counter = .position k := by
  obtain ⟨hi, action, hat, ht⟩ := h.tick_of_next? hs hn
  rw [ht] at hph ⊢
  rw [step_eq] at hph ⊢
  cases hr : action.run m.operations p.size here m.state with
  | error f => rw [hr] at hph; exact absurd hph (by simp)
  | ok st =>
      exact Action.Performs.counter_gt hf rfl hi hat.means h.standard.counter_lt
        (Action.run_eq_ok hr)

/-- A run that has gone further down with every turn. -/
structure Descended (m : Machine) (n : Nat) : Prop where
  ascending : (m.positions n).Pairwise (· < ·)
  /-- While the run goes on, its counter is behind everything that was executed. -/
  behind : (m.runFor n).phase = .running → ∀ here,
    (m.runFor n).state.registers.get Registers.counter = .position here →
      n ≤ here ∧ ∀ k ∈ m.positions n, k < here

/-- **Every run of a forward program goes further down with every turn.** -/
theorem Placed.descended (h : m.Placed p) (hs : m.Settled) (hf : p.Forward) (n : Nat) :
    m.Descended n := by
  induction n with
  | zero => exact ⟨List.Pairwise.nil, fun _ here _ => ⟨Nat.zero_le here, fun k hk => nomatch hk⟩⟩
  | succ n ih =>
      have hpositions : m.positions (n + 1) = m.positions n ++ (m.runFor n).position?.toList :=
        seen_succ m position? n
      unfold position? at hpositions
      cases hn : (m.runFor n).next? with
      | none =>
          have hidle := ((h.runFor n).tick_of_next?_none hn).2.2
          rw [hn] at hpositions
          constructor
          · rw [hpositions]
            simpa using ih.ascending
          · intro hph
            rw [runFor_tick] at hph
            exact absurd ((idle_eq_false hph).symm.trans hidle) (by simp)
      | some x =>
          obtain ⟨here, i⟩ := x
          obtain ⟨_, action, hat, _⟩ := (h.runFor n).tick_of_next? (hs.runFor h n) hn
          obtain ⟨hle, hbehind⟩ := ih.behind hat.executes.running here hat.counter
          rw [hn] at hpositions
          constructor
          · rw [hpositions]
            refine List.pairwise_append.mpr ⟨ih.ascending, List.pairwise_singleton .., ?_⟩
            intro k hk j hj
            rw [List.mem_singleton.mp hj]
            exact hbehind k hk
          · rw [runFor_tick, hpositions]
            intro hph k hk
            obtain ⟨k', hlt, hk'⟩ := (h.runFor n).counter_lt_tick (hs.runFor h n) hf hn hph
            obtain rfl : k' = k := Value.position.inj (hk'.symm.trans hk)
            refine ⟨by omega, ?_⟩
            intro j hj
            rcases List.mem_append.mp hj with hj | hj
            · exact Nat.lt_trans (hbehind j hj) hlt
            · rw [List.mem_singleton.mp hj]
              exact hlt

/-- A forward program leaves no turn to take after one for each of its instructions and one more. -/
theorem Placed.idle_of_forward (h : m.Placed p) (hs : m.Settled) (hf : p.Forward) :
    (m.runFor (p.size + 1)).idle = true := by
  cases hidle : (m.runFor (p.size + 1)).idle with
  | true => rfl
  | false =>
      obtain ⟨here, hle, hc⟩ := (h.runFor (p.size + 1)).counter
      have hlt := ((h.descended hs hf _).behind (phase_eq_running hidle) here hc).1
      omega

/-- There are no more numbers below a bound, in ascending order, than the bound. -/
theorem length_le_of_ascending {ks : List Nat} {size : Nat} (h : ks.Pairwise (· < ·))
    (hlt : ∀ k ∈ ks, k < size) : ks.length ≤ size := by
  have hnodup : ks.Nodup := h.imp fun hab => Nat.ne_of_lt hab
  have hsub : ks ⊆ List.range size := fun k hk => List.mem_range.mpr (hlt k hk)
  have hle := (List.subperm_of_subset hnodup hsub).length_le
  rwa [List.length_range] at hle

/--
**Programs that only go forward end.**

Whatever was done to a machine, the operations installed and the registers set to any values: if it is
ready to start and its program jumps by labels alone and by each of them further down, then a start
of it comes back, with whatever result and under whatever limit or none, after a turn for each
instruction at most and one more. At every moment on the way the positions that were executed are
strictly ascending positions of the program, so none is executed twice, and they are as many as the
steps that were counted, no more than the program has instructions.
-/
theorem forward_ends (h : Lived settings acts m) (hph : m.phase = .configuring)
    (hp : m.program = some p) (hf : p.Forward) :
    ∃ started, m.start = .ok started
      ∧ (∃ r, m.Returns r (started.runFor (p.size + 1)))
      ∧ ∀ n, (started.positions n).Pairwise (· < ·) ∧ (∀ k ∈ started.positions n, k < p.size)
        ∧ (started.runFor n).steps = (started.positions n).length
        ∧ (started.runFor n).steps ≤ p.size := by
  have hloaded : m.Loaded p := ⟨h.recorded.covered, h.settled, hph, hp⟩
  obtain ⟨hs, hplaced, hsettled⟩ := hloaded.start
  refine ⟨m.begun, hs, ?_, ?_⟩
  · obtain ⟨r, hr⟩ := hplaced.exists_outcome rfl (hplaced.idle_of_forward hsettled hf)
    exact ⟨r, .of_ok hs hr⟩
  · intro n
    have hascending := (hplaced.descended hsettled hf n).ascending
    have hlt := hplaced.positions_lt hsettled n
    have hsteps : (m.begun.runFor n).steps = (m.begun.positions n).length := by
      have hcount := hplaced.steps_eq_positions hsettled n
      have hzero : m.begun.steps = 0 := h.steps_eq_zero hph
      omega
    exact ⟨hascending, hlt, hsteps, hsteps ▸ length_le_of_ascending hascending hlt⟩

/-- Two jumps downwards around a value that is put aside and one that is not. -/
def stairs : List Item :=
  [.instruction (.save "flag"), .instruction (.branch (.label "low")), .instruction (.save "pc"),
    .label "low", .instruction (.restore "flag"), .instruction (.goto (.label "end")),
    .instruction (.restore "flag"), .label "end"]

/-- A machine is made ready to go down the stairs, the shorter way. -/
def descent : List (Act × Answer) :=
  [(.call (.request (.program stairs)), .done),
    (.call (.request (.set "flag" (.bool true))), .done)]

theorem forward_ends_stairs :
    ∃ (m started : Machine) (p : Program), Lived .default descent m
      ∧ m.phase = .configuring ∧ m.program = some p ∧ p.Forward ∧ m.start = .ok started
      ∧ (∃ r, m.Returns r (started.runFor (p.size + 1)))
      ∧ started.positions 7 = [0, 1, 3, 4] ∧ (started.positions 7).Pairwise (· < ·)
      ∧ (started.runFor 7).steps = 4 := by
  obtain ⟨m₁, hprogram, m, hset, s, hs, hph, p, hp, hi, hlow, hend, hpositions⟩ :
      ∃ m₁, (new .default).apply (.program stairs) = .ok m₁
        ∧ ∃ m, m₁.apply (.set "flag" (.bool true)) = .ok m
        ∧ ∃ s, m.start = .ok s ∧ m.phase = .configuring ∧ ∃ p, m.program = some p
          ∧ p.instructions = Item.instructions stairs
          ∧ p.labels.lookup "low" = some 3 ∧ p.labels.lookup "end" = some 6
          ∧ s.positions 7 = [0, 1, 3, 4] :=
    ⟨_, by cbv, _, by cbv, _, by cbv, by cbv, _, by cbv, by cbv, by cbv, by cbv, by cbv⟩
  have h : Lived .default descent m := (Lived.new.request hprogram).request hset
  have hf : p.Forward := by
    constructor
    · intro name
      rw [hi]
      simp [stairs, Item.instructions]
    · intro here k name hjump hl
      rw [hi] at hjump
      rcases here with _ | _ | _ | _ | _ | _ | here
      all_goals simp [stairs, Item.instructions] at hjump
      · rw [← hjump, hlow] at hl
        exact Option.some.inj hl ▸ by decide
      · rw [← hjump, hend] at hl
        exact Option.some.inj hl ▸ by decide
  obtain ⟨started, hs', hreturns, hrun⟩ := forward_ends h hph hp hf
  obtain rfl : started = s := Except.ok.inj (hs'.symm.trans hs)
  obtain ⟨hascending, _, hsteps, _⟩ := hrun 7
  exact ⟨m, started, p, h, hph, hp, hf, hs, hreturns, hpositions, hascending,
    by rw [hsteps, hpositions]; rfl⟩

end Machine

end RegisterMachine
