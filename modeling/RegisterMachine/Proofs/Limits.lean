import RegisterMachine.Proofs.History

/-!
# Limits only cut a run

Two settings can make a run fail that would not fail without them: a limit on the number of
instructions, and the check that the stack is empty at the end. Neither has any other influence. A
run under a limit is the run without it up to the turn in which the limit is noticed, and a run with
the check is the run without it but for what its last turn makes of the stack.

Both are shown by following two runs side by side. Putting the setting in force is a function on
machines, `capped` for a limit and `strict` for the check, and turns commute with it: with `strict`
always, with `capped` as long as the limit is not exceeded.
-/

namespace RegisterMachine.Machine

variable {m m' : Machine} {p : Program} {settings : Settings} {acts : List (Act × Answer)}

/-- The machine under other settings. -/
def under (m : Machine) (settings : Settings) : Machine := { m with settings }

theorem Placed.under (h : m.Placed p) (settings : Settings) : (m.under settings).Placed p :=
  ⟨h.program, h.standard, h.within, h.counter, h.fetched, h.ended⟩

/-- Settings have no influence on an instruction. -/
theorem step_under (size here : Nat) (line : Line) :
    (m.under settings).step size here line = (m.step size here line).under settings := by
  rw [step_eq, step_eq]
  simp only [under]
  cases line.action.run m.operations size here m.state with
  | ok state => rfl
  | error fault => rfl

/-- Whatever comes of an instruction, it is counted. -/
theorem step_steps (size here : Nat) (line : Line) :
    (m.step size here line).settings = m.settings
      ∧ (m.step size here line).steps = m.steps + 1 := by
  rw [step_eq]
  cases line.action.run m.operations size here m.state with
  | ok state => exact ⟨rfl, rfl⟩
  | error fault => exact ⟨rfl, rfl⟩

/-- An instruction does not end a run well. -/
theorem step_phase_ne (h : m.phase = .running) (size here : Nat) (line : Line) :
    (m.step size here line).phase ≠ .halted := by
  rw [step_eq]
  cases line.action.run m.operations size here m.state with
  | ok state => simp [h]
  | error fault => simp

/-- A run that was going on and is so no more has a result. -/
theorem Placed.exists_outcome {n : Nat} (h : m.Placed p) (hph : m.phase = .running)
    (hidle : (m.runFor n).idle = true) : ∃ r, (m.runFor n).outcome = some r := by
  obtain ⟨k, hk, hlast⟩ := exists_last_turn hph hidle
  obtain ⟨here, _, _, ht⟩ := (h.runFor k).turn hk
  rw [hlast] at hidle ⊢
  generalize (m.runFor k).tick = m' at ht hidle ⊢
  cases ht with
  | finish hl => exact (ended_finish _).outcome
  | exhausted hl hx => exact ⟨_, rfl⟩
  | fault hl hx hr => exact ⟨_, rfl⟩
  | step hl hx hr => exact absurd (hidle.symm.trans (idle_eq_false hk)) (by simp)

/-! ## Counting instructions -/

/-- A turn counts an instruction or ends the run. -/
theorem Turn.counted {here : Nat} (h : m.Turn p here m') :
    m'.steps = m.steps + 1 ∨ m'.steps = m.steps ∧ m'.idle = true := by
  cases h with
  | finish hl => exact Or.inr ⟨rfl, (ended_finish m).idle⟩
  | exhausted hl hx => exact Or.inr ⟨rfl, rfl⟩
  | fault hl hx hr => exact Or.inl rfl
  | step hl hx hr => exact Or.inl rfl

theorem Placed.tick_counted (h : m.Placed p) :
    m.tick.steps = m.steps + 1 ∨ m.tick.steps = m.steps ∧ m.tick.idle = true := by
  cases hidle : m.idle with
  | true => rw [tick_of_idle hidle]; exact Or.inr ⟨rfl, hidle⟩
  | false =>
      obtain ⟨here, _, _, ht⟩ := h.turn (phase_eq_running hidle)
      exact ht.counted

theorem Placed.tick_settings (h : m.Placed p) : m.tick.settings = m.settings := by
  cases hidle : m.idle with
  | true => rw [tick_of_idle hidle]
  | false =>
      obtain ⟨here, _, _, ht⟩ := h.turn (phase_eq_running hidle)
      generalize m.tick = m' at ht ⊢
      cases ht with
      | finish | exhausted | fault | step => rfl

theorem Placed.steps_runFor_le (h : m.Placed p) (n : Nat) :
    (m.runFor n).steps ≤ m.steps + n := by
  induction n with
  | zero => exact Nat.le_refl _
  | succ n ih =>
      have htick := (h.runFor n).tick_counted
      rw [runFor_tick]
      omega

theorem Placed.settings_runFor (h : m.Placed p) (n : Nat) :
    (m.runFor n).settings = m.settings := by
  induction n with
  | zero => rfl
  | succ n ih => rw [runFor_tick, (h.runFor n).tick_settings, ih]

/-- **A run that goes on counts every turn.** -/
theorem Placed.steps_runFor (h : m.Placed p) {n : Nat} (hph : (m.runFor n).phase = .running) :
    (m.runFor n).steps = m.steps + n := by
  induction n with
  | zero => rfl
  | succ n ih =>
      rw [runFor_tick] at hph ⊢
      have hbefore : (m.runFor n).phase = .running := by
        cases hidle : (m.runFor n).idle with
        | true => rw [tick_of_idle hidle] at hph; exact hph
        | false => exact phase_eq_running hidle
      have hsteps := ih hbefore
      rcases (h.runFor n).tick_counted with hcount | ⟨_, hend⟩
      · omega
      · exact absurd ((idle_eq_false hph).symm.trans hend) (by simp)

/-! ## A limit -/

/-- The machine with a limit of steps. -/
def capped (limit : Nat) (m : Machine) : Machine := m.under ⟨some limit, m.settings.balanced⟩

theorem exhausted_of_lt {limit : Nat} (hs : m.settings.stepLimit = some limit)
    (hlt : m.steps < limit) : m.exhausted = none := by
  unfold exhausted
  rw [hs, Option.filter_some, decide_eq_false (by omega)]
  rfl

theorem exhausted_of_ge {limit : Nat} (hs : m.settings.stepLimit = some limit)
    (hge : limit ≤ m.steps) : m.exhausted = some limit := by
  unfold exhausted
  rw [hs, Option.filter_some, decide_eq_true hge]
  rfl

theorem exhausted_of_none (hs : m.settings.stepLimit = none) : m.exhausted = none := by
  unfold exhausted
  rw [hs]
  rfl

/-- **Below the limit a turn is the same.** -/
theorem Placed.tick_capped {limit : Nat} (h : m.Placed p) (hs : m.settings.stepLimit = none)
    (hle : m.tick.steps ≤ limit) : (m.capped limit).tick = m.tick.capped limit := by
  cases hidle : m.idle with
  | true =>
      have hidle' : (m.capped limit).idle = true := hidle
      rw [tick_of_idle hidle, tick_of_idle hidle']
  | false =>
      have hph := phase_eq_running hidle
      have hph' : (m.capped limit).phase = .running := hph
      have hp' : (m.capped limit).program = some p := h.program
      obtain ⟨here, _, hc⟩ := h.counter
      cases hl : p.lines[here]? with
      | none =>
          rw [tick_end hph h.program hc hl, tick_end hph' hp' hc hl]
          rfl
      | some line =>
          have ht := tick_line hph h.program hc hl (exhausted_of_none hs)
          obtain ⟨hsettings, hsteps⟩ := step_steps (m := m) p.size here line
          rw [ht] at hle ⊢
          have hlt : m.steps < limit := by omega
          rw [tick_line hph' hp' hc hl (exhausted_of_lt rfl hlt)]
          unfold capped
          rw [step_under, hsettings]

/-- **As long as the limit is not exceeded the run is the same.** -/
theorem Placed.runFor_capped {limit n : Nat} (h : m.Placed p) (hs : m.settings.stepLimit = none)
    (hle : (m.runFor n).steps ≤ limit) :
    (m.capped limit).runFor n = (m.runFor n).capped limit := by
  induction n with
  | zero => rfl
  | succ n ih =>
      rw [runFor_tick] at hle
      have hn := h.runFor n
      have hbefore : (m.runFor n).steps ≤ limit := by
        have hcount := hn.tick_counted
        omega
      have hsn : (m.runFor n).settings.stepLimit = none := by rw [h.settings_runFor]; exact hs
      rw [runFor_tick, runFor_tick, ih hbefore, hn.tick_capped hsn hle]

/-- A run that has used its steps up and is not at the end fails. -/
theorem Placed.runFor_exhausted {limit : Nat} (h : m.Placed p) (hph : m.phase = .running)
    (hzero : m.steps = 0) (hs : m.settings.stepLimit = none)
    (hlong : ∀ n r, (m.runFor n).outcome = some r → limit < (m.runFor n).steps) :
    (m.runFor limit).phase = .running ∧ (m.runFor limit).steps = limit
      ∧ (m.capped limit).runFor (limit + 1) = { m.runFor limit with
          settings := ⟨some limit, m.settings.balanced⟩
          phase := .failed (.stepLimit limit) } := by
  have hgoing : (m.runFor limit).phase = .running := by
    cases hidle : (m.runFor limit).idle with
    | false => exact phase_eq_running hidle
    | true =>
        obtain ⟨r, hout⟩ := h.exists_outcome hph hidle
        have hlt := hlong limit r hout
        have hle := h.steps_runFor_le limit
        omega
  have hsteps : (m.runFor limit).steps = limit := by
    have hcount := h.steps_runFor hgoing
    omega
  refine ⟨hgoing, hsteps, ?_⟩
  have hn := h.runFor limit
  obtain ⟨here, _, hc⟩ := hn.counter
  cases hl : p.lines[here]? with
  -- at the end the run would be over, with no more steps than the limit
  | none =>
      have hend : m.runFor (limit + 1) = (m.runFor limit).finish := by
        rw [runFor_tick, tick_end hgoing hn.program hc hl]
      obtain ⟨r, hout⟩ := (ended_finish (m.runFor limit)).outcome
      rw [← hend] at hout
      have hlt := hlong (limit + 1) r hout
      have hsame : (m.runFor (limit + 1)).steps = (m.runFor limit).steps := by rw [hend]; rfl
      omega
  | some line =>
      have hx : ((m.runFor limit).capped limit).exhausted = some limit :=
        exhausted_of_ge rfl (Nat.le_of_eq hsteps.symm)
      have hph' : ((m.runFor limit).capped limit).phase = .running := hgoing
      rw [runFor_tick, h.runFor_capped hs (Nat.le_of_eq hsteps),
        tick_exhausted hph' hn.program hc hl hx, ← h.settings_runFor limit]
      rfl

/-! ## The check for values left on the stack -/

/-- The machine with the check, at the same moment: one that has halted has been checked. -/
def strict (m : Machine) : Machine :=
  let m' := m.under ⟨m.settings.stepLimit, true⟩
  match m.phase with
  | .halted => m'.finish
  | .configuring | .running | .failed _ => m'

theorem strict_of_ne (h : m.phase ≠ .halted) :
    m.strict = m.under ⟨m.settings.stepLimit, true⟩ := by
  unfold strict
  split
  · next hph => exact absurd hph h
  all_goals rfl

theorem strict_of_empty (h : m.phase = .halted) (hd : m.state.stack.depth = 0) :
    m.strict = m.under ⟨m.settings.stepLimit, true⟩ := by
  cases m with
  | mk settings operations program phase steps state =>
      subst h
      simp [strict, finish, under, hd]

theorem strict_of_left (h : m.phase = .halted) (hd : m.state.stack.depth ≠ 0) :
    m.strict = { m with
      settings := ⟨m.settings.stepLimit, true⟩
      phase := .failed (.unbalanced m.state.stack.depth) } := by
  simp [strict, h, finish, under, hd]

theorem idle_strict (m : Machine) : m.strict.idle = m.idle := by
  cases hph : m.phase with
  | halted =>
      have hidle : m.idle = true := by unfold idle; rw [hph]
      rw [hidle]
      by_cases hd : m.state.stack.depth = 0
      · rw [strict_of_empty hph hd]; exact hidle
      · rw [strict_of_left hph hd]; rfl
  | configuring | running | failed => rw [strict_of_ne (by simp [hph])]; rfl

/-- **With the check a turn is the same**, but for what the last one makes of the stack. -/
theorem Placed.tick_strict (h : m.Placed p) (hb : m.settings.balanced = false) :
    m.strict.tick = m.tick.strict := by
  cases hidle : m.idle with
  | true =>
      have hidle' : m.strict.idle = true := (idle_strict m).trans hidle
      rw [tick_of_idle hidle, tick_of_idle hidle']
  | false =>
      have hph := phase_eq_running hidle
      obtain ⟨here, _, hc⟩ := h.counter
      rw [strict_of_ne (m := m) (by simp [hph])]
      generalize hset : (⟨m.settings.stepLimit, true⟩ : Settings) = settings
      have hph' : (m.under settings).phase = .running := hph
      have hp' : (m.under settings).program = some p := h.program
      have hx' : (m.under settings).exhausted = m.exhausted := by rw [← hset]; rfl
      cases hl : p.lines[here]? with
      | none =>
          have hhalted : m.finish.phase = .halted := by simp [finish, hb]
          rw [tick_end hph h.program hc hl, tick_end hph' hp' hc hl, ← hset]
          unfold strict
          rw [hhalted]
          rfl
      | some line =>
          cases hx : m.exhausted with
          | some limit =>
              rw [tick_exhausted hph h.program hc hl hx,
                tick_exhausted hph' hp' hc hl (hx'.trans hx), strict_of_ne (by simp), ← hset]
              rfl
          | none =>
              have hne := step_phase_ne (m := m) hph p.size here line
              rw [tick_line hph h.program hc hl hx, tick_line hph' hp' hc hl (hx'.trans hx),
                step_under, strict_of_ne hne, (step_steps p.size here line).1, hset]

theorem Placed.runFor_strict (h : m.Placed p) (hb : m.settings.balanced = false) (n : Nat) :
    m.strict.runFor n = (m.runFor n).strict := by
  induction n with
  | zero => rfl
  | succ n ih =>
      have hbn : (m.runFor n).settings.balanced = false := by rw [h.settings_runFor]; exact hb
      rw [runFor_tick, runFor_tick, ih, (h.runFor n).tick_strict hbn]

/-! ## Runs with and without -/

/-- What a limit makes of the run that a start of `m` begins. -/
structure LimitCuts (m : Machine) (balanced : Bool) (limit : Nat) : Prop where
  /-- A run that needs no more steps comes to the same end. -/
  within : ∀ {r : Except RunError Done} {m' : Machine},
    (m.under ⟨none, balanced⟩).Returns r m' → m'.steps ≤ limit →
      (m.under ⟨some limit, balanced⟩).Returns r (m'.under ⟨some limit, balanced⟩)
  /-- One that needs more, or never ends, fails after that many steps, where it was then. -/
  beyond : (∀ r m', (m.under ⟨none, balanced⟩).Returns r m' → limit < m'.steps) →
    ∃ started, (m.under ⟨none, balanced⟩).start = .ok started
      ∧ (started.runFor limit).phase = .running ∧ (started.runFor limit).steps = limit
      ∧ (m.under ⟨some limit, balanced⟩).Returns (.error (.stepLimit limit))
          { started.runFor limit with
            settings := ⟨some limit, balanced⟩
            phase := .failed (.stepLimit limit) }

/-- What the check for values left on the stack makes of the run that a start of `m` begins. -/
structure CheckCuts (m : Machine) (limit : Option Nat) : Prop where
  /-- A run that fails, or leaves nothing, comes to the same end. -/
  passed : ∀ {r : Except RunError Done} {m' : Machine},
    (m.under ⟨limit, false⟩).Returns r m' → (∀ d, r = .ok d → m'.state.stack.depth = 0) →
      (m.under ⟨limit, true⟩).Returns r (m'.under ⟨limit, true⟩)
  /-- One that leaves values fails instead, where it would have halted. -/
  left : ∀ {d : Done} {m' : Machine},
    (m.under ⟨limit, false⟩).Returns (.ok d) m' → m'.state.stack.depth ≠ 0 →
      (m.under ⟨limit, true⟩).Returns (.error (.unbalanced m'.state.stack.depth))
        { m' with
          settings := ⟨limit, true⟩
          phase := .failed (.unbalanced m'.state.stack.depth) }
  /-- One that never ends does not end either. -/
  endless : (∀ r m', ¬ (m.under ⟨limit, false⟩).Returns r m') →
    ∀ r m', ¬ (m.under ⟨limit, true⟩).Returns r m'

/-- A start pays no regard to the settings. -/
theorem start_under {started : Machine} (h : m.start = .ok started) (settings : Settings) :
    (m.under settings).start = .ok (started.under settings) := by
  obtain ⟨hph, ⟨p, hp⟩, rfl⟩ := start_eq_ok h
  exact start_of_program (m := m.under settings) hph hp

section Started

variable {started : Machine}

theorem limitCuts_of_start (hs : m.start = .ok started) (hp : started.Placed p)
    (hph : started.phase = .running) (hzero : started.steps = 0) (balanced : Bool) (limit : Nat) :
    m.LimitCuts balanced limit := by
  have hfree := start_under hs ⟨none, balanced⟩
  have hplaced := hp.under ⟨none, balanced⟩
  -- the same machine with the limit is what a start with the limit begins with
  have hlimited : (m.under ⟨some limit, balanced⟩).start
      = .ok ((started.under ⟨none, balanced⟩).capped limit) := start_under hs _
  constructor
  · intro r m' hr hle
    obtain ⟨n, hout, rfl⟩ := (returns_iff_of_ok hfree).mp hr
    have hrun := hplaced.runFor_capped rfl hle
    refine (returns_iff_of_ok hlimited).mpr ⟨n, ?_, ?_⟩
    · rw [hrun]; exact hout
    · rw [hrun, capped, hplaced.settings_runFor]; rfl
  · intro hlong
    have hlong' : ∀ n r, ((started.under ⟨none, balanced⟩).runFor n).outcome = some r →
        limit < ((started.under ⟨none, balanced⟩).runFor n).steps :=
      fun n r hout => hlong r _ (.of_ok hfree hout)
    obtain ⟨hgoing, hsteps, hrun⟩ := hplaced.runFor_exhausted hph hzero rfl hlong'
    refine ⟨_, hfree, hgoing, hsteps, (returns_iff_of_ok hlimited).mpr ⟨limit + 1, ?_, hrun.symm⟩⟩
    rw [hrun]
    rfl

theorem checkCuts_of_start (hs : m.start = .ok started) (hp : started.Placed p)
    (hph : started.phase = .running) (limit : Option Nat) : m.CheckCuts limit := by
  have hlax := start_under hs ⟨limit, false⟩
  have hplaced := hp.under ⟨limit, false⟩
  have hbegin : (started.under ⟨limit, false⟩).strict = started.under ⟨limit, true⟩ :=
    strict_of_ne (m := started.under ⟨limit, false⟩) (by simp [under, hph])
  have hstrict : (m.under ⟨limit, true⟩).start
      = .ok (started.under ⟨limit, false⟩).strict := by
    rw [hbegin]; exact start_under hs _
  have hrun := hplaced.runFor_strict rfl
  have hsettings := hplaced.settings_runFor
  refine ⟨?_, ?_, ?_⟩
  · intro r m' hr hempty
    obtain ⟨n, hout, rfl⟩ := (returns_iff_of_ok hlax).mp hr
    have hsame : ((started.under ⟨limit, false⟩).runFor n).strict
        = ((started.under ⟨limit, false⟩).runFor n).under ⟨limit, true⟩ := by
      rcases outcome_cases hout with ⟨hend, hok⟩ | ⟨e, hend, _⟩
      · rw [strict_of_empty hend (hempty _ hok), hsettings]; rfl
      · rw [strict_of_ne (by simp [hend]), hsettings]; rfl
    refine (returns_iff_of_ok hstrict).mpr ⟨n, ?_, ?_⟩
    · rw [hrun, hsame]; exact hout
    · rw [hrun, hsame]
  · intro d m' hr hdepth
    obtain ⟨n, hout, rfl⟩ := (returns_iff_of_ok hlax).mp hr
    rcases outcome_cases hout with ⟨hend, _⟩ | ⟨e, _, herr⟩
    · have hleft := strict_of_left hend hdepth
      rw [hsettings] at hleft
      refine (returns_iff_of_ok hstrict).mpr ⟨n, ?_, ?_⟩
      · rw [hrun, hleft]; rfl
      · rw [hrun, hleft]; rfl
    · exact absurd herr (by simp)
  · intro hendless r m' hr
    obtain ⟨n, hout, rfl⟩ := (returns_iff_of_ok hstrict).mp hr
    rw [hrun] at hout
    have hidle := (idle_strict _).symm.trans (idle_of_outcome hout)
    obtain ⟨r', hout'⟩ := hplaced.exists_outcome hph hidle
    exact hendless r' _ (.of_ok hlax hout')

end Started

/--
**Limits only cut a run, they never change it.**

Whatever was done to a machine, if it is ready to start: with a limit its run comes to the same end,
whichever that is, if it takes no more steps than the limit; any other run, one without end among
them, fails with the limit after exactly that many steps, in the state in which it was then. With the
check a run is the same unless it halts with values on the stack, and then it fails with their number
in the state in which it would have halted.
-/
theorem limits_only_cut {started : Machine} (h : Lived settings acts m)
    (hs : m.start = .ok started) :
    (∀ balanced limit, m.LimitCuts balanced limit) ∧ ∀ limit, m.CheckCuts limit := by
  obtain ⟨p, _, hplaced⟩ := h.recorded.covered.start hs
  obtain ⟨hconf, _, rfl⟩ := start_eq_ok hs
  have hzero := h.steps_eq_zero hconf
  exact ⟨limitCuts_of_start hs hplaced rfl hzero, checkCuts_of_start hs hplaced rfl⟩

/-- A machine is made ready for a run of one instruction, which leaves a value on the stack. -/
def oneSave : List (Act × Answer) :=
  [(.call (.request (.program [.instruction (.save "flag")])), .done)]

theorem limits_only_cut_oneSave :
    ∃ m m', Lived .default oneSave m
      ∧ (m.under ⟨none, false⟩).Returns (.ok ⟨1, ⟨1, 1, 1⟩⟩) m'
      ∧ (m.under ⟨some 1, false⟩).Returns (.ok ⟨1, ⟨1, 1, 1⟩⟩) (m'.under ⟨some 1, false⟩)
      ∧ (∃ cut, (m.under ⟨some 0, false⟩).Returns (.error (.stepLimit 0)) cut)
      ∧ ∃ cut, (m.under ⟨none, true⟩).Returns (.error (.unbalanced 1)) cut := by
  obtain ⟨m, hdone, s, hs, hend, hsteps, hdepth⟩ :
      ∃ m, (new .default).apply (.program [.instruction (.save "flag")]) = .ok m
        ∧ ∃ s, m.start = .ok s
          ∧ ((s.under ⟨none, false⟩).runFor 2).outcome = some (.ok ⟨1, ⟨1, 1, 1⟩⟩)
          ∧ ((s.under ⟨none, false⟩).runFor 2).steps = 1
          ∧ ((s.under ⟨none, false⟩).runFor 2).state.stack.depth = 1 :=
    ⟨_, by cbv, _, by cbv, rfl, rfl, rfl⟩
  have h : Lived .default oneSave m := Lived.new.next ((does_request_of_ok hdone).mpr ⟨rfl, rfl⟩)
  have hfree : (m.under ⟨none, false⟩).Returns (.ok ⟨1, ⟨1, 1, 1⟩⟩)
      ((s.under ⟨none, false⟩).runFor 2) := .of_ok (start_under hs _) hend
  obtain ⟨hlimit, hcheck⟩ := limits_only_cut h hs
  have hone := (hlimit false 1).within hfree (Nat.le_of_eq hsteps)
  obtain ⟨_, _, _, _, hzero⟩ := (hlimit false 0).beyond fun r m' hr => by
    rw [(hr.unique hfree).2, hsteps]
    exact Nat.one_pos
  have hleft := (hcheck none).left hfree (by rw [hdepth]; exact Nat.one_ne_zero)
  rw [hdepth] at hleft
  exact ⟨m, _, h, hfree, hone, ⟨_, hzero⟩, ⟨_, hleft⟩⟩

end RegisterMachine.Machine
