import Mathlib
import RegisterMachine.Proofs.Executing

/-!
# Saves and restores nest

A value that is saved lies on the stack until the depth comes back to what it was, and it is then
the value that is restored, whatever happened between. No program has to keep to any discipline for
that: the stack is a stack, and what lies below a depth that is not gone below is out of reach. Only
an operation that empties the stack reaches it.

What is carried through a run is the bottom of the stack up to a depth (`Stack.bottom`). A turn keeps
it (`StackTurn.bottom_eq`), so every stretch of turns does; the rest is finding out that the turn in
which the depth comes back must be a restore.
-/

namespace RegisterMachine

namespace Stack

variable {s s' : Stack} {v : Value} {d : Nat}

/-- The deepest values, so many of them, the deepest one first. -/
def bottom (s : Stack) (d : Nat) : List Value := s.values.toList.take d

theorem bottom_depth (s : Stack) : s.bottom s.depth = s.values.toList := by
  unfold bottom depth
  rw [← Array.length_toList, List.take_length]

theorem bottom_push (h : d ≤ s.depth) (v : Value) : (s.push v).bottom d = s.bottom d := by
  unfold bottom push
  rw [Array.toList_push]
  exact List.take_append_of_le_length h

theorem bottom_of_pop (h : s.pop = .ok (v, s')) (hd : d ≤ s'.depth) : s.bottom d = s'.bottom d := by
  unfold bottom
  rw [values_of_pop h, Array.toList_push]
  exact List.take_append_of_le_length hd

end Stack

namespace Machine

variable {m : Machine} {p : Program} {d i j : Nat} {settings : Settings}
  {acts : List (Act × Answer)}

/-- How many values are on the stack. -/
def depth (m : Machine) : Nat := m.state.stack.depth

/-! ## One turn -/

/-- **A turn keeps the bottom of the stack**, up to any depth that it does not go below. -/
theorem StackTurn.bottom_eq (h : m.StackTurn) (hu : ¬ m.Empties) (hd : d ≤ m.depth)
    (hd' : d ≤ m.tick.depth) : m.tick.state.stack.bottom d = m.state.stack.bottom d := by
  cases h with
  | kept h => rw [h]
  | saved hi hv h => rw [h]; exact Stack.bottom_push hd _
  | restored hi h hv => exact (Stack.bottom_of_pop h hd').symm
  | emptied hi h => exact absurd hi hu

/-- A turn takes one value off the stack at most. -/
theorem StackTurn.depth_le (h : m.StackTurn) (hu : ¬ m.Empties) : m.depth ≤ m.tick.depth + 1 := by
  unfold depth
  cases h with
  | kept h => rw [h]; omega
  | saved hi hv h => rw [h, Stack.depth_push]; omega
  | restored hi h hv => exact Nat.le_of_eq (Stack.depth_of_pop h)
  | emptied hi h => exact absurd hi hu

/-- A save puts the content of the register on the stack. -/
theorem Placed.saves {name : String} (h : m.Placed p) (hs : m.Settled)
    (hi : m.Executes (.save name)) :
    ∃ v, m.register? name = some v ∧ m.tick.state.stack = m.state.stack.push v := by
  obtain ⟨here, action, hat, ht⟩ := h.tick_of_executes hs hi
  cases hat.means with
  | save hl => exact ⟨_, Registers.get?_eq_some hl, by rw [ht]; rfl⟩

/-- **A turn in which the depth falls is a restore** of the topmost value. -/
theorem StackTurn.restored_of_depth_lt (h : m.StackTurn) (hu : ¬ m.Empties)
    (hd : m.tick.depth < m.depth) :
    ∃ name v, m.Executes (.restore name) ∧ m.state.stack.pop = .ok (v, m.tick.state.stack)
      ∧ m.tick.register? name = some v := by
  unfold depth at hd
  cases h with
  | kept h => rw [h] at hd; omega
  | saved hi hv h => rw [h, Stack.depth_push] at hd; omega
  | restored hi h hv => exact ⟨_, _, hi, h, hv⟩
  | emptied hi h => exact absurd hi hu

/-! ## Stretches of turns -/

/-- In the turns from `i` to before `j` nothing empties the stack. -/
def Unemptied (m : Machine) (i j : Nat) : Prop := ∀ t, i ≤ t → t < j → ¬ (m.runFor t).Empties

/-- From turn `i` to before turn `j`, and after it, there are at least so many values. -/
def StaysAbove (m : Machine) (d i j : Nat) : Prop := ∀ t, i ≤ t → t ≤ j → d ≤ (m.runFor t).depth

/-- A program without operations never empties the stack. -/
theorem Placed.unemptied (h : m.Placed p)
    (hno : ∀ x ∈ p.instructions, ∀ name inputs, ¬ x.Applies name inputs) (i j : Nat) :
    m.Unemptied i j := by
  intro t _ _ hempties
  obtain ⟨x, name, inputs, _, hx, happ, _⟩ := hempties
  exact hno x (hx.mem (h.runFor t).program) name inputs happ

theorem Placed.stackTurn_runFor (h : m.Placed p) (hs : m.Settled) (n : Nat) :
    (m.runFor n).StackTurn := (h.runFor n).stackTurn (hs.runFor h n)

/-- **A stretch of turns keeps the bottom of the stack.** -/
theorem Placed.bottom_runFor (h : m.Placed p) (hs : m.Settled) (hij : i ≤ j)
    (hu : m.Unemptied i j) (hd : m.StaysAbove d i j) :
    (m.runFor j).state.stack.bottom d = (m.runFor i).state.stack.bottom d := by
  induction hij with
  | refl => rfl
  | @step j hij ih =>
      have hij : i ≤ j := hij
      have hbefore := ih (fun t ht htj => hu t ht (by omega)) (fun t ht htj => hd t ht (by omega))
      have hj : d ≤ (m.runFor j).depth := hd j hij (by omega)
      have hj' : d ≤ (m.runFor j).tick.depth := by
        rw [← runFor_tick]
        exact hd (j + 1) (by omega) (Nat.le_refl _)
      rw [runFor_tick, (h.stackTurn_runFor hs j).bottom_eq (hu j hij (by omega)) hj hj', hbefore]

/-- A depth that is never reached from above is never gone below. -/
theorem Placed.staysAbove (h : m.Placed p) (hs : m.Settled) (hu : m.Unemptied i j)
    (hi : d < (m.runFor i).depth) (hd : ∀ t, i ≤ t → t ≤ j → (m.runFor t).depth ≠ d) :
    m.StaysAbove (d + 1) i j := by
  intro t hit
  induction hit with
  | refl => intro _; exact hi
  | @step t hit ih =>
      have hit : i ≤ t := hit
      intro htj
      have hbefore := ih (by omega)
      have hfall := (h.stackTurn_runFor hs t).depth_le (hu t hit (by omega))
      have hne := hd (t + 1) (by omega) htj
      rw [runFor_tick] at hne ⊢
      omega

/-! ## Matching -/

/-- **A saved value comes back** in the turn in which the depth does. -/
theorem Placed.restores (h : m.Placed p) (hs : m.Settled) (hij : i < j) {name : String}
    (hi : (m.runFor i).Executes (.save name)) (hu : m.Unemptied (i + 1) (j + 1))
    (hd : ∀ t, i < t → t ≤ j → (m.runFor t).depth ≠ (m.runFor i).depth)
    (hj : (m.runFor (j + 1)).depth = (m.runFor i).depth) :
    ∃ v target, (m.runFor i).register? name = some v
      ∧ (m.runFor (i + 1)).state.stack = (m.runFor i).state.stack.push v
      ∧ (m.runFor j).Executes (.restore target)
      ∧ (m.runFor (j + 1)).register? target = some v := by
  obtain ⟨v, hv, hpush⟩ := (h.runFor i).saves (hs.runFor h i) hi
  rw [← runFor_tick] at hpush
  have hbegin : (m.runFor (i + 1)).depth = (m.runFor i).depth + 1 := by
    unfold depth
    rw [hpush, Stack.depth_push]
  have hu' : m.Unemptied (i + 1) j := fun t ht htj => hu t ht (by omega)
  have habove := h.staysAbove hs hu' (by omega) fun t ht htj => hd t (by omega) htj
  -- so at turn `j` the stack is what it was behind the save, up to that depth
  have hbottom := h.bottom_runFor hs hij hu' habove
  have hjlow : (m.runFor i).depth + 1 ≤ (m.runFor j).depth := habove j hij (Nat.le_refl _)
  have hfall : (m.runFor j).tick.depth < (m.runFor j).depth := by
    rw [← runFor_tick]
    omega
  obtain ⟨target, w, hrestore, hpop, hw⟩ :=
    (h.stackTurn_runFor hs j).restored_of_depth_lt (hu j (by omega) (by omega)) hfall
  rw [← runFor_tick] at hpop hw
  have hdepth : (m.runFor j).state.stack.depth = (m.runFor i).depth + 1 := by
    rw [Stack.depth_of_pop hpop]
    exact congrArg (· + 1) hj
  -- and up to that depth is all of it, with the saved value on top
  have htop : (m.runFor (j + 1)).state.stack.values.toList ++ [w]
      = (m.runFor i).state.stack.values.toList ++ [v] := by
    rw [← Array.toList_push, ← Stack.values_of_pop hpop, ← Stack.bottom_depth, hdepth, hbottom,
      ← hbegin]
    show Stack.bottom _ (m.runFor (i + 1)).state.stack.depth = _
    rw [Stack.bottom_depth, hpush]
    exact Array.toList_push
  have hvw : w = v := List.singleton_inj.mp (List.append_inj' htop rfl).2
  exact ⟨v, target, hv, hpush, hrestore, by rw [← hvw]; exact hw⟩

/--
**Saves and restores nest.**

Whatever was done to a machine, in every run of it: the values up to a depth are the same before and
after any stretch of turns in which nothing empties the stack and the depth does not fall below. And
if a register is saved and nothing empties the stack from then on, the first turn that brings the
depth back to what it was before the save is a restore, and the value that it puts into its register
is the one that was saved.
-/
theorem saves_and_restores_nest {started : Machine} (h : Lived settings acts m)
    (hs : m.start = .ok started) :
    (∀ d i j, i ≤ j → started.Unemptied i j → started.StaysAbove d i j →
        (started.runFor j).state.stack.bottom d = (started.runFor i).state.stack.bottom d)
      ∧ ∀ name i j, i < j → (started.runFor i).Executes (.save name) →
          started.Unemptied (i + 1) (j + 1) →
          (∀ t, i < t → t ≤ j → (started.runFor t).depth ≠ (started.runFor i).depth) →
          (started.runFor (j + 1)).depth = (started.runFor i).depth →
          ∃ v target, (started.runFor i).register? name = some v
            ∧ (started.runFor (i + 1)).state.stack = (started.runFor i).state.stack.push v
            ∧ (started.runFor j).Executes (.restore target)
            ∧ (started.runFor (j + 1)).register? target = some v := by
  obtain ⟨p, _, hplaced⟩ := h.recorded.covered.start hs
  have hsettled := h.settled.start hs
  constructor
  · intro d i j hij hu hd
    exact hplaced.bottom_runFor hsettled hij hu hd
  · intro name i j hij hi hu hd hj
    exact hplaced.restores hsettled hij hi hu hd hj

/-- A controller that saves its own position, goes away with a return address saved above it, and
comes back to restore the position into another register. -/
def errandController : List Item :=
  [.instruction (.save "pc"),
    .instruction (.assign "back" (.label "home")),
    .instruction (.save "back"),
    .instruction (.assign "back" (.const (.bool true))),
    .instruction (.goto (.label "away")),
    .label "home",
    .instruction (.restore "x"),
    .instruction (.goto (.label "end")),
    .label "away",
    .instruction (.restore "back"),
    .instruction (.goto (.reg "back")),
    .label "end"]

/-- A machine is made ready for the errand. -/
def errand : List (Act × Answer) :=
  [(.call (.request (.allocate "back")), .done), (.call (.request (.allocate "x")), .done),
    (.call (.request (.program errandController)), .done)]

theorem saves_and_restores_nest_errand :
    ∃ m started, Lived .default errand m ∧ m.start = .ok started
      ∧ (started.runFor 0).Executes (.save "pc") ∧ started.Unemptied 1 8
      ∧ (started.runFor 3).depth = 2 ∧ (started.runFor 8).depth = 0
      ∧ (started.runFor 7).state.stack.bottom 1 = (started.runFor 1).state.stack.bottom 1
      ∧ ∃ v target, (started.runFor 0).register? "pc" = some v
          ∧ (started.runFor 7).Executes (.restore target)
          ∧ (started.runFor 8).register? target = some v := by
  obtain ⟨m₁, hback, m₂, hx, m, hprogram, s, hs, p, hp, hinstructions, hpc, hph, hallowed, hdepths⟩ :
      ∃ m₁, (new .default).apply (.allocate "back") = .ok m₁
        ∧ ∃ m₂, m₁.apply (.allocate "x") = .ok m₂
        ∧ ∃ m, m₂.apply (.program errandController) = .ok m
        ∧ ∃ s, m.start = .ok s ∧ ∃ p, s.program = some p
          ∧ p.instructions = Item.instructions errandController
          ∧ s.register? "pc" = some (.position 0) ∧ s.phase = .running ∧ s.exhausted = none
          ∧ (List.range 9).map (fun t => (s.runFor t).depth) = [0, 1, 1, 2, 2, 2, 1, 1, 0] :=
    ⟨_, by cbv, _, by cbv, _, by cbv, _, by cbv, _, by cbv, by cbv, by cbv, by cbv, by cbv, by cbv⟩
  have h : Lived .default errand m := ((Lived.new.request hback).request hx).request hprogram
  have hdepth : ∀ t d, [0, 1, 1, 2, 2, 2, 1, 1, 0][t]? = some d → (s.runFor t).depth = d := by
    intro t d ht
    rw [← hdepths, List.getElem?_map, Option.map_eq_some_iff] at ht
    obtain ⟨t', ht', hd⟩ := ht
    obtain ⟨_, rfl⟩ := List.getElem?_eq_some_iff.mp ht'
    rwa [List.getElem_range] at hd
  have hsave : (s.runFor 0).Executes (.save "pc") :=
    ⟨hph, hallowed, p, 0, hp, hpc, by rw [hinstructions]; rfl⟩
  obtain ⟨q, hq, hplaced⟩ := h.recorded.covered.start hs
  have hqp : q = p := Option.some.inj (hplaced.program.symm.trans hp)
  have hu : s.Unemptied 1 8 := by
    refine hplaced.unemptied ?_ 1 8
    rw [hqp, hinstructions]
    intro x hx name inputs happ
    cases happ with
    | assign | test | perform => simp [errandController, Item.instructions] at hx
  obtain ⟨hbottom, hmatch⟩ := saves_and_restores_nest h hs
  have hlow : ∀ t, 0 < t → t ≤ 7 → 0 < (s.runFor t).depth := by
    intro t ht ht'
    have hcases : t = 1 ∨ t = 2 ∨ t = 3 ∨ t = 4 ∨ t = 5 ∨ t = 6 ∨ t = 7 := by omega
    rcases hcases with rfl | rfl | rfl | rfl | rfl | rfl | rfl
    all_goals rw [hdepth _ _ rfl]; decide
  have hzero : (s.runFor 0).depth = 0 := hdepth 0 0 rfl
  have hsame := hbottom 1 1 7 (by omega) (fun t ht ht' => hu t ht (by omega))
    fun t ht ht' => hlow t (by omega) ht'
  obtain ⟨v, target, hv, _, hrestore, htarget⟩ := hmatch "pc" 0 7 (by omega) hsave hu
    (fun t ht ht' => by rw [hzero]; exact Nat.ne_of_gt (hlow t ht ht'))
    ((hdepth 8 0 rfl).trans hzero.symm)
  exact ⟨m, s, h, hs, hsave, hu, hdepth 3 2 rfl, hdepth 8 0 rfl, hsame, v, target, hv, hrestore,
    htarget⟩

end Machine

end RegisterMachine
