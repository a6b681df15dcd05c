import RegisterMachine.Proofs.Bounds

/-!
# What a machine has been through

Seen from outside a start is one call more: it comes back with the result of the run, or it never
comes back. `Returns` puts the start and the turns behind it together to that one call, and `Lived`
says what was done to a machine, and answered by it, since it was new.

Such a history decides the stage of the machine. Up to the first start that finds a program the
machine is put together, and whatever it refuses leaves no trace. That start is the only one that
does anything. Behind it the machine is frozen: registers can be set, and nothing else can be
changed.
-/

namespace RegisterMachine

namespace Machine

variable {m m' : Machine}

/-! ## Runs that have ended -/

theorem runFor_add (m : Machine) (n k : Nat) : m.runFor (n + k) = (m.runFor n).runFor k := by
  induction n generalizing m with
  | zero => rw [Nat.zero_add]; rfl
  | succ n ih => rw [Nat.succ_add, runFor_succ, runFor_succ, ih]

/-- The turns in order, the last one last. -/
theorem runFor_tick (m : Machine) (n : Nat) : m.runFor (n + 1) = (m.runFor n).tick := by
  rw [runFor_add, runFor_succ]
  rfl

/-- A run that has ended stays as it is. -/
theorem runFor_of_le {n k : Nat} (h : (m.runFor n).idle = true) (hle : n ≤ k) :
    m.runFor k = m.runFor n := by
  have hk : k = n + (k - n) := by omega
  rw [hk, runFor_add, runFor_of_idle h]

/-- **The last turn of a run that has ended.** -/
theorem exists_last_turn {n : Nat} (hph : m.phase = .running) (h : (m.runFor n).idle = true) :
    ∃ k, (m.runFor k).phase = .running ∧ m.runFor n = (m.runFor k).tick := by
  induction n generalizing m with
  | zero => exact absurd (h.symm.trans (idle_eq_false hph)) (by simp)
  | succ n ih =>
      rw [runFor_succ] at h ⊢
      cases hidle : m.tick.idle with
      | true => exact ⟨0, hph, runFor_of_idle hidle n⟩
      | false =>
          obtain ⟨k, hk, hlast⟩ := ih (phase_eq_running hidle) h
          exact ⟨k + 1, by rw [runFor_succ]; exact hk, by rw [runFor_succ]; exact hlast⟩

/-- A machine whose run is over. -/
def Ended (m : Machine) : Prop := m.phase = .halted ∨ ∃ e, m.phase = .failed e

/-- A result is that of a machine that has halted or failed. -/
theorem outcome_cases {r : Except RunError Done} (h : m.outcome = some r) :
    (m.phase = .halted ∧ r = .ok ⟨m.steps, m.state.stack.statistics⟩)
      ∨ ∃ e, m.phase = .failed e ∧ r = .error e := by
  unfold outcome at h
  split at h
  · next hph => exact Or.inl ⟨hph, (Option.some.inj h).symm⟩
  · next e hph => exact Or.inr ⟨e, hph, (Option.some.inj h).symm⟩
  all_goals exact absurd h (by simp)

theorem Ended.outcome (h : m.Ended) : ∃ r, m.outcome = some r := by
  unfold Machine.outcome
  rcases h with h | ⟨e, h⟩
  · rw [h]; exact ⟨_, rfl⟩
  · rw [h]; exact ⟨_, rfl⟩

theorem Ended.idle (h : m.Ended) : m.idle = true := by
  unfold Machine.idle
  rcases h with h | ⟨e, h⟩
  · rw [h]
  · rw [h]

theorem ended_of_outcome {r : Except RunError Done} (h : m.outcome = some r) : m.Ended := by
  rcases outcome_cases h with ⟨hph, _⟩ | ⟨e, hph, _⟩
  · exact Or.inl hph
  · exact Or.inr ⟨e, hph⟩

theorem idle_of_outcome {r : Except RunError Done} (h : m.outcome = some r) : m.idle = true :=
  (ended_of_outcome h).idle

theorem ended_finish (m : Machine) : m.finish.Ended := by
  unfold Ended finish
  dsimp only
  split
  · exact Or.inr ⟨_, rfl⟩
  · exact Or.inl rfl

/-! ## A start as one call -/

/-- A start of `m` comes back with the result `r` and leaves the machine as `m'`: it is refused, or
the run that it begins comes to an end. -/
inductive Returns (m : Machine) : Except RunError Done → Machine → Prop where
  | refused {e : RunError} {m' : Machine} (h : InPlace.start.on m = (.error e, m')) :
      Returns m (.error e) m'
  | ran {started : Machine} {n : Nat} {r : Except RunError Done}
      (h : InPlace.start.on m = (.ok (), started)) (hr : (started.runFor n).outcome = some r) :
      Returns m r (started.runFor n)

theorem Returns.of_error {e : RunError} (h : m.start = .error e) : m.Returns (.error e) m :=
  .refused (InPlace.on_start_eq_error_iff.mpr ⟨h, rfl⟩)

theorem Returns.of_ok {started : Machine} {n : Nat} {r : Except RunError Done}
    (h : m.start = .ok started) (hr : (started.runFor n).outcome = some r) :
    m.Returns r (started.runFor n) := .ran (InPlace.on_start_eq_ok_iff.mpr h) hr

/-- **Starts that come back, taken apart**: one that is refused has left the machine as it was. -/
theorem Returns.cases {r : Except RunError Done} (h : m.Returns r m') :
    (∃ e, m.start = .error e ∧ r = .error e ∧ m' = m)
      ∨ ∃ started n, m.start = .ok started ∧ (started.runFor n).outcome = some r
          ∧ m' = started.runFor n := by
  cases h with
  | refused h =>
      obtain ⟨hs, hm⟩ := InPlace.on_start_eq_error_iff.mp h
      exact Or.inl ⟨_, hs, rfl, hm⟩
  | ran h hr => exact Or.inr ⟨_, _, InPlace.on_start_eq_ok_iff.mp h, hr, rfl⟩

/-- **A start comes back in one way only.** -/
theorem Returns.unique {r r' : Except RunError Done} {m₁ m₂ : Machine} (h₁ : m.Returns r m₁)
    (h₂ : m.Returns r' m₂) : r = r' ∧ m₁ = m₂ := by
  cases h₁ with
  | refused h₁ =>
      cases h₂ with
      | refused h₂ =>
          obtain ⟨he, hm⟩ := Prod.mk.inj (h₁.symm.trans h₂)
          exact ⟨congrArg _ (Except.error.inj he), hm⟩
      | ran h₂ _ => exact absurd (h₁.symm.trans h₂) (by simp)
  | @ran s₁ n r h₁ hr₁ =>
      cases h₂ with
      | refused h₂ => exact absurd (h₁.symm.trans h₂) (by simp)
      | @ran s₂ k r' h₂ hr₂ =>
          have hs : s₁ = s₂ := (Prod.mk.inj (h₁.symm.trans h₂)).2
          subst hs
          have hsame : s₁.runFor n = s₁.runFor k := by
            rcases Nat.le_total n k with hle | hle
            · exact (runFor_of_le (idle_of_outcome hr₁) hle).symm
            · exact runFor_of_le (idle_of_outcome hr₂) hle
          rw [hsame, hr₂] at hr₁
          exact ⟨(Option.some.inj hr₁).symm, hsame⟩

theorem returns_iff_of_error {e : RunError} (h : m.start = .error e) {r : Except RunError Done} :
    m.Returns r m' ↔ r = .error e ∧ m' = m := by
  constructor
  · intro hr
    obtain ⟨h₁, h₂⟩ := hr.unique (.of_error h)
    exact ⟨h₁, h₂⟩
  · intro hr
    rw [hr.1, hr.2]
    exact .of_error h

theorem returns_iff_of_ok {started : Machine} (h : m.start = .ok started)
    {r : Except RunError Done} :
    m.Returns r m' ↔ ∃ n, (started.runFor n).outcome = some r ∧ m' = started.runFor n := by
  constructor
  · intro hr
    rcases hr.cases with ⟨e, he, _⟩ | ⟨started', n, hs, hout, hm⟩
    · exact absurd (h.symm.trans he) (by simp)
    · rw [Except.ok.inj (h.symm.trans hs)]
      exact ⟨n, hout, hm⟩
  · intro hr
    obtain ⟨n, hout, rfl⟩ := hr
    exact .of_ok h hout

/-- **How a start that is carried out ends.** -/
theorem Returns.phase {started : Machine} {r : Except RunError Done} (hs : m.start = .ok started)
    (h : m.Returns r m') :
    (m'.phase = .halted ∧ r = .ok ⟨m'.steps, m'.state.stack.statistics⟩)
      ∨ ∃ e, m'.phase = .failed e ∧ r = .error e := by
  obtain ⟨n, hr, rfl⟩ := (returns_iff_of_ok hs).mp h
  exact outcome_cases hr

theorem Returns.ended {started : Machine} {r : Except RunError Done} (hs : m.start = .ok started)
    (h : m.Returns r m') : m'.Ended := by
  obtain ⟨n, hr, rfl⟩ := (returns_iff_of_ok hs).mp h
  exact ended_of_outcome hr

end Machine

/-! ## Histories -/

/-- Whatever is done to a machine from outside. -/
inductive Act where
  | call (c : Call)
  | start

/-- What comes of it. -/
inductive Answer where
  | done
  | refused (e : ConfigError)
  | returned (r : Except RunError Done)

/-- A controller was accepted as the program. -/
def Installed (acts : List (Act × Answer)) : Prop :=
  ∃ items, (Act.call (.request (.program items)), Answer.done) ∈ acts

/-- A start was made when there was a program. -/
def Started (acts : List (Act × Answer)) : Prop :=
  ∃ before x after, acts = before ++ (Act.start, x) :: after ∧ Installed before

theorem installed_concat {acts : List (Act × Answer)} {a : Act} {x : Answer} :
    Installed (acts ++ [(a, x)]) ↔
      Installed acts ∨ x = .done ∧ ∃ items, a = .call (.request (.program items)) := by
  constructor
  · intro h
    obtain ⟨items, hmem⟩ := h
    rcases List.mem_append.mp hmem with h | h
    · exact Or.inl ⟨items, h⟩
    · obtain ⟨ha, hx⟩ := Prod.mk.inj (List.mem_singleton.mp h)
      exact Or.inr ⟨hx.symm, items, ha.symm⟩
  · intro h
    rcases h with ⟨items, hmem⟩ | ⟨hx, items, ha⟩
    · exact ⟨items, List.mem_append_left _ hmem⟩
    · rw [hx, ha]
      exact ⟨items, List.mem_append_right _ (List.mem_singleton_self _)⟩

theorem started_concat {acts : List (Act × Answer)} {a : Act} {x : Answer} :
    Started (acts ++ [(a, x)]) ↔ Started acts ∨ a = .start ∧ Installed acts := by
  constructor
  · intro h
    obtain ⟨before, y, after, hacts, hi⟩ := h
    -- the start is the last thing done, or was done before
    rcases List.eq_nil_or_concat after with hnil | ⟨after', z, hafter⟩
    · rw [hnil] at hacts
      obtain ⟨rfl, hlast⟩ := List.append_inj' hacts rfl
      have ha := (Prod.mk.inj (List.singleton_inj.mp hlast)).1
      exact Or.inr ⟨ha, hi⟩
    · rw [hafter, List.concat_eq_append, ← List.cons_append, ← List.append_assoc] at hacts
      exact Or.inl ⟨before, y, after', (List.append_inj' hacts rfl).1, hi⟩
  · intro h
    rcases h with ⟨before, y, after, hacts, hi⟩ | ⟨ha, hi⟩
    · refine ⟨before, y, after ++ [(a, x)], ?_, hi⟩
      rw [hacts, List.append_assoc, List.cons_append]
    · exact ⟨acts, x, [], by rw [ha], hi⟩

namespace Machine

variable {m m' : Machine} {settings : Settings} {acts : List (Act × Answer)} {a : Act} {x : Answer}

/-- What a call answers. -/
def answer (m : Machine) : Call → Answer
  | .configure _ => .done
  | .request r =>
    match ((InPlace.apply r).on m).1 with
    | .ok () => .done
    | .error e => .refused e

/-- One thing that is done to a machine, with its answer and the machine it leaves. There is none for
a start that never comes back. -/
inductive Does (m : Machine) : Act → Answer → Machine → Prop where
  | called (c : Call) : Does m (.call c) (m.answer c) (m.call c)
  | started {r : Except RunError Done} {m' : Machine} (h : m.Returns r m') :
      Does m .start (.returned r) m'

/-- What a machine has been through that was new with these settings. -/
inductive Lived (settings : Settings) : List (Act × Answer) → Machine → Prop where
  | new : Lived settings [] (Machine.new settings)
  | next {acts : List (Act × Answer)} {m : Machine} {a : Act} {x : Answer} {m' : Machine}
      (h : Lived settings acts m) (hd : m.Does a x m') : Lived settings (acts ++ [(a, x)]) m'

theorem does_call_iff {c : Call} : m.Does (.call c) x m' ↔ x = m.answer c ∧ m' = m.call c := by
  constructor
  · intro h; cases h; exact ⟨rfl, rfl⟩
  · intro h; rw [h.1, h.2]; exact .called c

theorem does_start_iff : m.Does .start x m' ↔ ∃ r, x = .returned r ∧ m.Returns r m' := by
  constructor
  · intro h; cases h with | started h => exact ⟨_, rfl, h⟩
  · intro h; obtain ⟨r, rfl, hr⟩ := h; exact .started hr

theorem does_start_iff_of_error {e : RunError} (h : m.start = .error e) :
    m.Does .start x m' ↔ x = .returned (.error e) ∧ m' = m := by
  rw [does_start_iff]
  constructor
  · intro hd
    obtain ⟨r, rfl, hr⟩ := hd
    obtain ⟨rfl, hm⟩ := (returns_iff_of_error h).mp hr
    exact ⟨rfl, hm⟩
  · intro hd
    exact ⟨_, hd.1, (returns_iff_of_error h).mpr ⟨rfl, hd.2⟩⟩

theorem answer_of_ok {r : Request} {m₁ : Machine} (h : m.apply r = .ok m₁) :
    m.answer (.request r) = .done := by
  simp only [answer, InPlace.on_apply_eq_ok_iff.mpr h]

theorem answer_of_error {r : Request} {e : ConfigError} (h : m.apply r = .error e) :
    m.answer (.request r) = .refused e := by
  simp only [answer, InPlace.on_apply_eq_error_iff.mpr ⟨h, rfl⟩]

theorem does_request_of_ok {r : Request} {m₁ : Machine} (h : m.apply r = .ok m₁) :
    m.Does (.call (.request r)) x m' ↔ x = .done ∧ m' = m₁ := by
  have hanswer := answer_of_ok h
  have hcall : m.call (.request r) = m₁ := attempt_ok h
  rw [does_call_iff, hanswer, hcall]

/-- A request that is carried out becomes part of the history. -/
theorem Lived.request {r : Request} (h : Lived settings acts m) (hr : m.apply r = .ok m') :
    Lived settings (acts ++ [(.call (.request r), .done)]) m' :=
  h.next ((does_request_of_ok hr).mpr ⟨rfl, rfl⟩)

theorem does_request_of_error {r : Request} {e : ConfigError} (h : m.apply r = .error e) :
    m.Does (.call (.request r)) x m' ↔ x = .refused e ∧ m' = m := by
  have hanswer := answer_of_error h
  have hcall : m.call (.request r) = m := attempt_error h
  rw [does_call_iff, hanswer, hcall]

/-! ## What calls leave alone -/

/-- Only a start changes the stage or the count of steps. -/
theorem call_phase (m : Machine) (c : Call) :
    (m.call c).phase = m.phase ∧ (m.call c).steps = m.steps := by
  rcases call_cases m c with ⟨settings, hc⟩ | ⟨r, hc⟩ | hc
  · rw [hc]; exact ⟨rfl, rfl⟩
  · generalize m.call c = m' at hc ⊢
    cases hc with
    | allocate | install | program | set => exact ⟨rfl, rfl⟩
  · rw [hc]; exact ⟨rfl, rfl⟩

/-- A program is there afterwards if there was one or a controller was accepted. -/
theorem call_program (m : Machine) (c : Call) :
    (∃ p, (m.call c).program = some p) ↔
      (∃ p, m.program = some p) ∨ m.answer c = .done ∧ ∃ items, c = .request (.program items) := by
  cases c with
  | configure settings => simp [call, answer]
  | request r =>
      show (∃ p, (m.attempt r).program = some p) ↔ _
      cases hr : m.apply r with
      | error e => simp [attempt_error hr, answer_of_error hr]
      | ok m' =>
          rw [attempt_ok hr]
          have hc := apply_eq_ok hr
          cases hc with
          | allocate | install | set => simp
          | program => simp [answer_of_ok hr]

/-- A run keeps the program. -/
theorem Returns.program {r : Except RunError Done} (hc : m.Covered) (h : m.Returns r m') :
    m'.program = m.program := by
  rcases h.cases with ⟨_, _, _, rfl⟩ | ⟨started, n, hs, _, rfl⟩
  · rfl
  · obtain ⟨p, hp, hplaced⟩ := hc.start hs
    rw [hp, (hplaced.runFor n).program]

theorem Returns.covered {r : Except RunError Done} (hc : m.Covered) (h : m.Returns r m') :
    m'.Covered := by
  rcases h.cases with ⟨_, _, _, rfl⟩ | ⟨started, n, hs, _, rfl⟩
  · exact hc
  · obtain ⟨p, _, hplaced⟩ := hc.start hs
    have hn := hplaced.runFor n
    refine ⟨hn.standard, ?_⟩
    intro q hq
    have hpq : p = q := Option.some.inj (hn.program.symm.trans hq)
    rw [← hpq]
    exact hn.within

/-! ## What the history says of the machine -/

/-- What every machine has with its history in common. -/
structure Recorded (acts : List (Act × Answer)) (m : Machine) : Prop where
  covered : m.Covered
  program : (∃ p, m.program = some p) ↔ Installed acts
  fresh : ¬ Started acts → m.phase = .configuring ∧ m.steps = 0
  ended : Started acts → m.Ended

theorem Recorded.program_eq_none (h : m.Recorded acts) (hni : ¬ Installed acts) :
    m.program = none := by
  cases hp : m.program with
  | none => rfl
  | some p => exact absurd (h.program.mp ⟨p, hp⟩) hni

theorem Ended.start (h : m.Ended) : m.start = .error .alreadyStarted := by
  unfold Machine.start
  rcases h with h | ⟨e, h⟩
  · rw [h]
  · rw [h]

theorem start_of_program {p : Program} (hph : m.phase = .configuring) (hp : m.program = some p) :
    m.start = .ok { m with phase := .running, state := m.state.jump 0 } := by
  unfold start
  rw [hph, hp]

theorem start_of_no_program (hph : m.phase = .configuring) (hp : m.program = none) :
    m.start = .error .noProgram := by
  unfold start
  rw [hph, hp]

theorem recorded_new (settings : Settings) : (new settings).Recorded [] where
  covered := covered_new settings
  program := by simp [new, Installed]
  fresh _ := ⟨rfl, rfl⟩
  ended h := by
    obtain ⟨before, y, after, hacts, _⟩ := h
    exact absurd hacts (by simp)

/-- **Kept by whatever is done.** -/
theorem Recorded.does (h : m.Recorded acts) (hd : m.Does a x m') :
    m'.Recorded (acts ++ [(a, x)]) := by
  cases hd with
  | called c =>
      have hstarted : Started (acts ++ [(Act.call c, m.answer c)]) ↔ Started acts := by
        rw [started_concat]
        simp
      obtain ⟨hphase, hsteps⟩ := call_phase m c
      refine ⟨h.covered.call c, ?_, ?_, ?_⟩
      · rw [call_program, h.program, installed_concat]
        simp
      · intro hns
        rw [hphase, hsteps]
        exact h.fresh fun hs => hns (hstarted.mpr hs)
      · intro hs
        unfold Ended
        rw [hphase]
        exact h.ended (hstarted.mp hs)
  | @started r m' hr =>
      have hinstalled : Installed (acts ++ [(Act.start, .returned r)]) ↔ Installed acts := by
        rw [installed_concat]
        simp
      refine ⟨hr.covered h.covered, ?_, ?_, ?_⟩
      · rw [hr.program h.covered, h.program, hinstalled]
      -- nothing was started, so this start found no program and did nothing
      · intro hns
        rw [started_concat] at hns
        obtain ⟨hph, hsteps⟩ := h.fresh fun hs => hns (Or.inl hs)
        have hnone := h.program_eq_none fun hi => hns (Or.inr ⟨rfl, hi⟩)
        obtain ⟨_, rfl⟩ := (returns_iff_of_error (start_of_no_program hph hnone)).mp hr
        exact ⟨hph, hsteps⟩
      · intro hs
        by_cases hbefore : Started acts
        · obtain ⟨_, rfl⟩ := (returns_iff_of_error (h.ended hbefore).start).mp hr
          exact h.ended hbefore
        · have hi : Installed acts := by
            rcases started_concat.mp hs with hs | ⟨_, hi⟩
            · exact absurd hs hbefore
            · exact hi
          obtain ⟨p, hp⟩ := h.program.mpr hi
          have hph := (h.fresh hbefore).1
          exact hr.ended (start_of_program hph hp)

/-- **Every history is recorded.** -/
theorem Lived.recorded (h : Lived settings acts m) : m.Recorded acts := by
  induction h with
  | new => exact recorded_new settings
  | next h hd ih => exact ih.does hd

/-- A machine that can be started has executed nothing. -/
theorem Lived.steps_eq_zero (h : Lived settings acts m) (hph : m.phase = .configuring) :
    m.steps = 0 := by
  have hns : ¬ Started acts := by
    intro hs
    rcases h.recorded.ended hs with hend | ⟨e, hend⟩
    · exact absurd (hph.symm.trans hend) (by simp)
    · exact absurd (hph.symm.trans hend) (by simp)
  exact (h.recorded.fresh hns).2

/-! ## Once -/

/-- A machine that is put together; `installed` says whether it has a program. What it refuses
leaves it as it was. A start without a program is refused too, and one with a program ends in the
stage that its result tells. -/
structure Open (installed : Prop) (m : Machine) : Prop where
  phase : m.phase = .configuring
  program : (∃ p, m.program = some p) ↔ installed
  refused : ∀ {c : Call} {e : ConfigError} {m' : Machine},
    m.Does (.call c) (.refused e) m' → m' = m
  unready : ¬ installed → ∀ {x : Answer} {m' : Machine},
    m.Does .start x m' ↔ x = .returned (.error .noProgram) ∧ m' = m
  ready : installed → ∀ {r : Except RunError Done} {m' : Machine},
    m.Does .start (.returned r) m' →
      (m'.phase = .halted ↔ ∃ d, r = .ok d) ∧ ∀ e, m'.phase = .failed e ↔ r = .error e

/-- A machine that can be changed no more but for the contents of its registers. -/
structure Frozen (m : Machine) : Prop where
  ended : m.Ended
  start : ∀ {x : Answer} {m' : Machine},
    m.Does .start x m' ↔ x = .returned (.error .alreadyStarted) ∧ m' = m
  request : ∀ {r : Request}, (∀ name v, r ≠ .set name v) → ∀ {x : Answer} {m' : Machine},
    m.Does (.call (.request r)) x m' ↔ x = .refused .frozen ∧ m' = m
  set : ∀ {name : String} {id : Nat} {v : Value}, m.state.registers.lookup name = some id →
    ∀ {x : Answer} {m' : Machine}, m.Does (.call (.request (.set name v))) x m' ↔
      x = .done ∧ m' = { m with state := m.state.set id v }
  set_unknown : ∀ {name : String} {v : Value}, m.state.registers.lookup name = none →
    ∀ {x : Answer} {m' : Machine}, m.Does (.call (.request (.set name v))) x m' ↔
      x = .refused (.noSuchRegister name) ∧ m' = m
  configure : ∀ {settings : Settings} {x : Answer} {m' : Machine},
    m.Does (.call (.configure settings)) x m' ↔ x = .done ∧ m' = { m with settings }

/-- What a call that is refused leaves is what its request has left in place: the machine as it was. -/
theorem does_refused {c : Call} {e : ConfigError} (h : m.Does (.call c) (.refused e) m') :
    m' = m := by
  obtain ⟨hx, rfl⟩ := does_call_iff.mp h
  cases c with
  | configure settings => exact absurd hx (by simp [answer])
  | request r =>
      cases hr : m.apply r with
      | error e => exact attempt_error hr
      | ok m' => exact absurd (hx.trans (answer_of_ok hr)) (by simp)

theorem Ended.frozen (h : m.Ended) : m.Frozen where
  ended := h
  start := does_start_iff_of_error h.start
  request {r} hr x m' := by
    have hc : m.configurable = .error .frozen := by
      unfold configurable
      rcases h with h | ⟨e, h⟩
      · rw [h]
      · rw [h]
    have hrefused : m.apply r = .error .frozen := by
      cases r with
      | allocate name => show (m.configurable >>= _) = _; rw [hc]; rfl
      | install bindings => show (m.configurable >>= _) = _; rw [hc]; rfl
      | program items => show (m.configurable >>= _) = _; rw [hc]; rfl
      | set name v => exact absurd rfl (hr name v)
    exact does_request_of_error hrefused
  set hl := does_request_of_ok (apply_set_of_lookup hl)
  set_unknown hl := does_request_of_error (apply_set_of_lookup_none hl)
  configure := does_call_iff

/--
**A machine runs once.**

Whatever was done to it since it was new: as long as no start found a program, the machine can be put
together, and anything that it refuses, a controller in place of an accepted one among it, leaves it
as it was. From the first start that finds a program on, which ends as its result tells, it refuses
every other start and every request, and only setting a register that it has does anything.
-/
theorem runs_once (h : Lived settings acts m) :
    (¬ Started acts → m.Open (Installed acts)) ∧ (Started acts → m.Frozen) := by
  have hr := h.recorded
  constructor
  · intro hns
    obtain ⟨hph, _⟩ := hr.fresh hns
    refine ⟨hph, hr.program, does_refused, ?_, ?_⟩
    · intro hni
      have hnone := hr.program_eq_none hni
      intro x m'
      exact does_start_iff_of_error (start_of_no_program hph hnone)
    · intro hi r m' hd
      cases hd with | started hreturns =>
      obtain ⟨p, hp⟩ := hr.program.mpr hi
      rcases hreturns.phase (start_of_program hph hp) with ⟨hend, hres⟩ | ⟨e, hend, hres⟩
      · rw [hend, hres]; simp
      · rw [hend, hres]; simp [eq_comm]
  · intro hs
    exact (hr.ended hs).frozen

/-- A start too early, a controller that is accepted and one that is not, and a start that runs the
first of them. -/
def earlyStart : List (Act × Answer) :=
  [(.start, .returned (.error .noProgram)),
    (.call (.request (.program [.instruction (.save "flag")])), .done),
    (.call (.request (.program [.instruction (.save "x")])),
      .refused (.unknownRegister "x" .save)),
    (.start, .returned (.ok ⟨1, ⟨1, 1, 1⟩⟩))]

theorem runs_once_earlyStart :
    ∃ m, Lived .default earlyStart m ∧ Started earlyStart ∧ m.Frozen := by
  have hnew : (new .default).start = .error .noProgram := rfl
  obtain ⟨m, hdone, hrefused, s, hs, hend⟩ :
      ∃ m, (new .default).apply (.program [.instruction (.save "flag")]) = .ok m
        ∧ m.apply (.program [.instruction (.save "x")]) = .error (.unknownRegister "x" .save)
        ∧ ∃ s, m.start = .ok s ∧ (s.runFor 2).outcome = some (.ok ⟨1, ⟨1, 1, 1⟩⟩) :=
    ⟨_, by cbv, by cbv, _, by cbv, rfl⟩
  have h₁ := Lived.new.next (.started (.of_error hnew))
  have h₂ := h₁.next ((does_request_of_ok hdone).mpr ⟨rfl, rfl⟩)
  have h₃ := h₂.next ((does_request_of_error hrefused).mpr ⟨rfl, rfl⟩)
  have h₄ : Lived .default earlyStart (s.runFor 2) := h₃.next (.started (.of_ok hs hend))
  have hstarted : Started earlyStart :=
    ⟨earlyStart.take 3, _, [], rfl, _, List.mem_cons_of_mem _ List.mem_cons_self⟩
  exact ⟨_, h₄, hstarted, (runs_once h₄).2 hstarted⟩

end Machine

end RegisterMachine
