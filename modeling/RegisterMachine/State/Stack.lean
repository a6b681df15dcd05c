import RegisterMachine.State.Fault
import RegisterMachine.State.InPlace

/-!
# The stack

Values that were put aside, the last one first to come back. The stack also counts: how many values
were ever pushed, and how deep it ever was, both since it was last made empty on purpose.
-/

namespace RegisterMachine

structure Stack where
  /-- The values, the deepest one first. -/
  values : Array Value
  /-- Counted without a bound; that a count of 64 bits wraps at `2 ^ 64` is left out. -/
  pushes : Nat
  maxDepth : Nat
deriving DecidableEq

namespace Stack

/-- A stack on which nothing has happened. -/
def empty : Stack := ⟨#[], 0, 0⟩

instance : Inhabited Stack := ⟨empty⟩

def depth (s : Stack) : Nat := s.values.size

def push (s : Stack) (v : Value) : Stack where
  values := s.values.push v
  pushes := s.pushes + 1
  maxDepth := max s.maxDepth (s.depth + 1)

/-- Takes the topmost value off. The counts stay. -/
def pop (s : Stack) : Except Fault (Value × Stack) :=
  match s.values.back? with
  | some v => .ok (v, { s with values := s.values.pop })
  | none => .error .emptyStack

/-- Takes the topmost value off in place: the values lose their last one, if they have one, and then
it turns out whether there was one. -/
def InPlace.pop : InPlace Stack Fault Value := do
  let top := (← get).values.back?
  modify fun s => { s with values := s.values.pop }
  match top with
  | some v => return v
  | none => throw .emptyStack

/-- What can be seen of a stack from outside. -/
structure Statistics where
  pushes : Nat
  maxDepth : Nat
  depth : Nat
deriving DecidableEq

def statistics (s : Stack) : Statistics := ⟨s.pushes, s.maxDepth, s.depth⟩

/-! ## Pushing and popping -/

@[simp] theorem depth_push (s : Stack) (v : Value) : (s.push v).depth = s.depth + 1 := by
  simp [depth, push]

/-- What was pushed comes back first, and the values beneath it are untouched. -/
theorem pop_push (s : Stack) (v : Value) :
    (s.push v).pop = .ok (v, { s.push v with values := s.values }) := by
  simp [pop, push]

/-- There is nothing to take off exactly if the stack is empty. -/
theorem pop_eq_error_iff {s : Stack} {f : Fault} :
    s.pop = .error f ↔ f = .emptyStack ∧ s.depth = 0 := by
  unfold pop depth
  rcases h : s.values.back? with _ | v
  · have hs : s.values = #[] := by simpa using h
    simp [hs, eq_comm]
  · have hs : s.values ≠ #[] := by
      intro he
      simp [he] at h
    simp [hs]

/-- What is taken off a stack lay on top of what is left. -/
theorem values_of_pop {s s' : Stack} {v : Value} (h : s.pop = .ok (v, s')) :
    s.values = s'.values.push v := by
  unfold pop at h
  split at h
  · next w hw =>
      obtain ⟨rfl, rfl⟩ := Prod.mk.inj (Except.ok.inj h)
      obtain ⟨below, hbelow⟩ := Array.back?_eq_some_iff.mp hw
      rw [hbelow, Array.pop_push]
  · exact absurd h (by simp)

/-- **A pop in place that fails changes nothing**: an empty array has no last value to lose. -/
theorem InPlace.on_pop (s : Stack) : InPlace.pop.on s = InPlace.whole s s.pop := by
  simp only [InPlace.pop, Stack.pop, InPlace.on_bind, InPlace.on_get, InPlace.on_modify]
  cases h : s.values.back? with
  | some v => rfl
  | none =>
      have hempty : s.values = #[] := by simpa using h
      have hpop : s.values.pop = s.values := by rw [hempty]; rfl
      rw [hpop]
      rfl

theorem depth_of_pop {s s' : Stack} {v : Value} (h : s.pop = .ok (v, s')) :
    s.depth = s'.depth + 1 := by
  unfold depth
  rw [values_of_pop h, Array.size_push]

end Stack

end RegisterMachine
