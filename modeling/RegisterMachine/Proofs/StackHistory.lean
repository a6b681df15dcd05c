import Mathlib
import RegisterMachine.Proofs.Executing

/-!
# What a run asks of its stack

The stack of a machine is used by the instructions that the machine executes, and by nothing else:
calls from outside do not reach it. So the stack of a run is a new stack after the uses of the
instructions executed so far (`Placed.stack_runFor`), and what is known of such stacks is known of it.
-/

namespace RegisterMachine.Machine

open Stack (Use)

variable {m : Machine} {p : Program} {settings : Settings} {acts : List (Act × Answer)}

/-- What the first turns ask of the stack, so many of them, in order. -/
def uses (m : Machine) (n : Nat) : List Use := m.seen use? n

/-! ## Turns and calls -/

/-- **The stack of a run** is the one that it began with, after what the run asked of it. -/
theorem Placed.stack_runFor (h : m.Placed p) (hs : m.Settled) (n : Nat) :
    (m.runFor n).state.stack = m.state.stack.after (m.uses n) := by
  induction n with
  | zero => rfl
  | succ n ih =>
      unfold uses at ih ⊢
      rw [runFor_tick, (h.runFor n).stack_tick (hs.runFor h n), ih, seen_succ, Stack.after_append]

/-- Calls do not reach the stack. -/
theorem stack_call (m : Machine) (c : Call) : (m.call c).state.stack = m.state.stack := by
  rcases call_cases m c with ⟨settings, hc⟩ | ⟨r, hc⟩ | hc
  · rw [hc]
  · generalize m.call c = m' at hc ⊢
    cases hc with
    | allocate | install | program | set => rfl
  · rw [hc]

theorem stack_callAll (m : Machine) (calls : List Call) :
    (m.callAll calls).state.stack = m.state.stack :=
  callAll_induction (P := fun m' => m'.state.stack = m.state.stack)
    (fun m' c h => (stack_call m' c).trans h) rfl calls

/-- A machine that is put together has a stack on which nothing has happened. -/
theorem Lived.stack_eq_empty (h : Lived settings acts m) (hph : m.phase = .configuring) :
    m.state.stack = .empty := by
  induction h with
  | new => rfl
  | @next _ m₁ _ _ _ _ hd ih =>
      cases hd with
      | called c =>
          rw [stack_call]
          exact ih ((call_phase m₁ c).1.symm.trans hph)
      | started hr =>
          rcases hr.cases with ⟨_, _, _, rfl⟩ | ⟨_, _, _, hout, rfl⟩
          · exact ih hph
          · rcases outcome_cases hout with ⟨hend, _⟩ | ⟨e, hend, _⟩
            · exact absurd (hph.symm.trans hend) (by simp)
            · exact absurd (hph.symm.trans hend) (by simp)

/--
**What a stack tells of itself is exact.**

After any uses, a stack that was new has counted the values pushed since it was last cleared; its
depth is that number without the values popped since then; its greatest depth is the greatest of
those that it had since then, and lies between its depth and its count. It refuses to pop exactly if
its depth is zero, which changes nothing, and otherwise gives the value that was pushed last and not
popped again.

The stack of a machine is such a stack, whatever was done to the machine: it is new when the machine
is started, and at every moment of the run, and however the machine is called upon after it, the
stack is as the instructions executed so far have used it.
-/
theorem statistics_exact (h : Lived settings acts m) :
    (∀ us, (Stack.empty.after us).Accounts us)
      ∧ (m.phase = .configuring → m.state.stack = .empty)
      ∧ ∀ started, m.start = .ok started → ∀ n calls,
          ((started.runFor n).callAll calls).state.stack = Stack.empty.after (started.uses n)
            ∧ ((started.runFor n).callAll calls).state.stack.Accounts (started.uses n) := by
  refine ⟨Stack.accounts_after, h.stack_eq_empty, ?_⟩
  intro started hs n calls
  obtain ⟨p, _, hplaced⟩ := h.recorded.covered.start hs
  have hsettled := h.settled.start hs
  have hnew : started.state.stack = .empty := by
    obtain ⟨hph, _, rfl⟩ := start_eq_ok hs
    exact h.stack_eq_empty hph
  have hstack :
      ((started.runFor n).callAll calls).state.stack = Stack.empty.after (started.uses n) := by
    rw [stack_callAll, hplaced.stack_runFor hsettled, hnew]
  rw [hstack]
  exact ⟨rfl, Stack.accounts_after _⟩

/-- The stack is cleared by an instruction that seems to do no more than ask for a value. -/
def tidying : List Item :=
  [.instruction (.save "flag"), .instruction (.save "pc"), .instruction (.restore "flag"),
    .instruction (.assign "flag" (.op "initialize-stack" [])), .instruction (.save "pc"),
    .instruction (.restore "flag"), .instruction (.restore "flag")]

theorem statistics_exact_tidying :
    ∃ m started, Lived .default [(.call (.request (.program tidying)), .done)] m
      ∧ m.start = .ok started
      ∧ started.uses 8 = [.push .unassigned, .push (.position 1), .pop, .clear,
          .push (.position 4), .pop, .pop]
      ∧ (started.runFor 8).state.stack = ⟨#[], 1, 1⟩
      ∧ (started.runFor 8).state.stack.Accounts (started.uses 8) := by
  obtain ⟨m, hprogram, s, hs, huses⟩ :
      ∃ m, (new .default).apply (.program tidying) = .ok m
        ∧ ∃ s, m.start = .ok s
        ∧ s.uses 8 = [.push .unassigned, .push (.position 1), .pop, .clear, .push (.position 4),
          .pop, .pop] :=
    ⟨_, by cbv, _, by cbv, by cbv⟩
  have h : Lived .default [(.call (.request (.program tidying)), .done)] m :=
    Lived.new.request hprogram
  obtain ⟨hstack, haccounts⟩ := (statistics_exact h).2.2 s hs 8 []
  refine ⟨m, s, h, hs, huses, ?_, haccounts⟩
  rw [huses] at hstack
  exact hstack

end RegisterMachine.Machine
