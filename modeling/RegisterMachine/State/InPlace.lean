/-!
# Changes in place

A change in place works on a state step by step and answers a value or an error. What is changed
stays changed, whether or not an error comes later: nothing here takes a change back. That an error
leaves the state as it was is therefore a property that some changes have and others lack, and
`whole` is how it is said.
-/

namespace RegisterMachine

/-- A change in place of a `σ`, which answers an `α` or fails with an `ε`. -/
abbrev InPlace (σ ε α : Type) : Type := ExceptT ε (StateM σ) α

namespace InPlace

variable {σ τ ε α β : Type}

/-- What is answered, and the state that is left. -/
def on (c : InPlace σ ε α) (s : σ) : Except ε α × σ := c.run.run s

/-- Changes a part of a larger state. -/
def within (part : τ → σ) (replace : τ → σ → τ) (c : InPlace σ ε α) : InPlace τ ε α :=
  ExceptT.mk (StateT.mk fun t => ((c.on (part t)).1, replace t (c.on (part t)).2))

/-- What is left of a change that is made as a whole or not at all. -/
def whole (s : σ) : Except ε (α × σ) → Except ε α × σ
  | .ok (a, s') => (.ok a, s')
  | .error e => (.error e, s)

/-! ## One step at a time -/

/-- An error ends a change, in the state that there is by then. -/
theorem on_bind (c : InPlace σ ε α) (d : α → InPlace σ ε β) (s : σ) :
    (c >>= d).on s = match c.on s with
      | (.ok a, s') => (d a).on s'
      | (.error e, s') => (.error e, s') := by
  show (match c.on s with | (r, s') => (ExceptT.bindCont d r).run s') = _
  rcases c.on s with ⟨_ | _, _⟩ <;> rfl

@[simp] theorem on_get (s : σ) : (get : InPlace σ ε σ).on s = (.ok s, s) := rfl

@[simp] theorem on_modify (f : σ → σ) (s : σ) :
    (modify f : InPlace σ ε Unit).on s = (.ok (), f s) := rfl

@[simp] theorem on_ofExcept (r : Except ε α) (s : σ) :
    (MonadExcept.ofExcept r : InPlace σ ε α).on s = (r, s) := by
  cases r <;> rfl

@[simp] theorem on_within (part : τ → σ) (replace : τ → σ → τ) (c : InPlace σ ε α) (t : τ) :
    (c.within part replace).on t = ((c.on (part t)).1, replace t (c.on (part t)).2) := rfl

/-! ## As a whole or not at all -/

variable {s s' : σ} {e : ε}

/-- **A change that is made as a whole or not at all** leaves nothing behind when it fails. -/
theorem whole_eq_error_iff {r : Except ε (α × σ)} :
    whole s r = (.error e, s') ↔ r = .error e ∧ s' = s := by
  cases r with
  | ok x => simp [whole]
  | error e' => simp [whole, eq_comm]

theorem whole_eq_ok_iff {r : Except ε σ} :
    whole s (r.map fun s => ((), s)) = (.ok (), s') ↔ r = .ok s' := by
  cases r with
  | ok s => simp [whole, Except.map]
  | error e => simp [whole, Except.map]

end InPlace

end RegisterMachine
