/-!
# Computations that succeeded, and where others stopped

Machines are put together and run by computations that stop at the first error. A computation that
did not stop is taken apart here: each of its stages succeeded, and the result is what the last one
made of the others. One that stopped did so at its first stage or behind it. No later proof opens a
sequence of stages in another way.
-/

namespace RegisterMachine

variable {ε α β : Type}

/-- **Two stages that succeed.** -/
theorem bind_eq_ok {x : Except ε α} {f : α → Except ε β} {b : β} :
    (x >>= f) = .ok b ↔ ∃ a, x = .ok a ∧ f a = .ok b := by
  cases x with
  | error e =>
      refine ⟨?_, ?_⟩
      · intro h; exact absurd h (by simp [bind, Except.bind])
      · rintro ⟨a, h, _⟩; exact absurd h (by simp)
  | ok a =>
      refine ⟨?_, ?_⟩
      · intro h; exact ⟨a, rfl, h⟩
      · rintro ⟨a', h, hb⟩; rw [← Except.ok.inj h] at hb; exact hb

/-- **Where two stages stop.** -/
theorem bind_eq_error {x : Except ε α} {f : α → Except ε β} {e : ε} :
    (x >>= f) = .error e ↔ x = .error e ∨ ∃ a, x = .ok a ∧ f a = .error e := by
  cases x with
  | error e' => simp [bind, Except.bind]
  | ok a => simp [bind, Except.bind]

/-- A result that is only dressed up. -/
theorem map_eq_ok {x : Except ε α} {f : α → β} {b : β} :
    x.map f = .ok b ↔ ∃ a, x = .ok a ∧ f a = b := by
  cases x with
  | error e =>
      refine ⟨?_, ?_⟩
      · intro h; exact absurd h (by simp [Except.map])
      · rintro ⟨a, h, _⟩; exact absurd h (by simp)
  | ok a =>
      refine ⟨?_, ?_⟩
      · intro h; exact ⟨a, rfl, Except.ok.inj h⟩
      · rintro ⟨a', h, hb⟩; rw [← Except.ok.inj h] at hb; rw [← hb]; rfl

theorem map_eq_error {x : Except ε α} {f : α → β} {e : ε} : x.map f = .error e ↔ x = .error e := by
  cases x with
  | error e' => simp [Except.map]
  | ok a => simp [Except.map]

/-- A result beside which only the error is dressed up. -/
theorem mapError_eq_ok {ε' : Type} {x : Except ε α} {f : ε → ε'} {a : α} :
    x.mapError f = .ok a ↔ x = .ok a := by
  cases x with
  | error e =>
      show Except.error (f e) = .ok a ↔ _
      simp
  | ok b =>
      show Except.ok b = .ok a ↔ _
      simp

/-- A result that there is once the error is forgotten. -/
theorem ok_of_toOption {x : Except ε α} {a : α} (h : x.toOption = some a) : x = .ok a := by
  cases x with
  | error e => exact absurd h (by simp [Except.toOption])
  | ok b => exact congrArg Except.ok (Option.some.inj h)

theorem error_of_toOption {x : Except ε α} (h : x.toOption.isNone = true) : ∃ e, x = .error e := by
  cases x with
  | error e => exact ⟨e, rfl⟩
  | ok a => exact absurd h (by simp [Except.toOption])

end RegisterMachine
