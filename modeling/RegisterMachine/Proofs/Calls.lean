import Mathlib.Data.List.Basic
import RegisterMachine.Operation.Standard
import RegisterMachine.Proofs.Rounding

/-!
# What a call on numbers comes to

Nine of the standard operations take two numbers. What a call of one comes to can be told from its
arguments: their count is wrong, or one of them is no number and the leftmost such is shown, or the
divisor is zero, or there is an answer (`Standard.Classified`). Seven operations keep to that.

Division and remainder look at the divisor first. As long as the dividend is a number that makes no
difference. If it is none, a divisor that is wrong too is told in its place, and this is all there is
of exceptions.

What an operation answers is what the operator of values has for the two numbers
(`Standard.host_eq_ok_iff`).
-/

namespace RegisterMachine.Standard

/-- A result that is told by the arguments, looked at from the left. -/
structure Classified (quotient : Prop) (args : List Value) (r : Except OperationError Reply) :
    Prop where
  arity : ∀ expected got, r = .error (.arity expected got) ↔
    args.length ≠ 2 ∧ expected = 2 ∧ got = args.length
  conflict : ∀ expected got, r = .error (.typeConflict expected got) ↔
    args.length = 2 ∧ expected = "number" ∧ args.find? (·.number?.isNone) = some got
  zero : r = .error .divisionByZero ↔
    quotient ∧ ∃ x y, args = [.number x, .number y] ∧ y.isZero = true
  answer : (∃ reply, r = .ok reply) ↔
    ∃ x y, args = [.number x, .number y] ∧ ¬ (quotient ∧ y.isZero = true)
  other : ∀ why, r ≠ .error (.other why)

/-- A divisor that is wrong beside a dividend that is no number, and what is told of the divisor. It
makes a difference unless the two are one value. -/
inductive Masked : List Value → OperationError → Prop where
  | conflict {a b : Value} (ha : a.number? = none) (hb : b.number? = none) (hne : b ≠ a) :
      Masked [a, b] (.typeConflict "number" b)
  | zero {a : Value} {y : Number.Double} (ha : a.number? = none) (hy : y.isZero = true) :
      Masked [a, .number y] .divisionByZero

variable {args : List Value} {quotient : Prop} {v : Value} {x y : Number.Double} {e : OperationError}

/-! ## Arguments from the left -/

/-- What arguments can be like. -/
inductive Supplied : List Value → Prop where
  | miscounted {args : List Value} (h : args.length ≠ 2) : Supplied args
  | first {a b : Value} (ha : a.number? = none) : Supplied [a, b]
  | second {x : Number.Double} {b : Value} (hb : b.number? = none) : Supplied [.number x, b]
  | numbers (x y : Number.Double) : Supplied [.number x, .number y]

theorem eq_number (h : v.number? = some x) : v = .number x := by
  cases v with
  | number n => exact congrArg Value.number (Option.some.inj h)
  | unassigned | bool | symbol | position => exact absurd h (by simp [Value.number?])

theorem supplied (args : List Value) : Supplied args := by
  by_cases hlength : args.length = 2
  · obtain ⟨a, b, rfl⟩ := List.length_eq_two.mp hlength
    cases ha : a.number? with
    | none => exact .first ha
    | some x =>
        obtain rfl := eq_number ha
        cases hb : b.number? with
        | none => exact .second hb
        | some y =>
            obtain rfl := eq_number hb
            exact .numbers x y
  · exact .miscounted hlength

theorem leftmost_first {a b : Value} (ha : a.number? = none) :
    [a, b].find? (·.number?.isNone) = some a :=
  List.find?_cons_of_pos (by simp [ha])

theorem leftmost_second {b : Value} (hb : b.number? = none) :
    [.number x, b].find? (·.number?.isNone) = some b := by
  rw [List.find?_cons_of_neg (by simp [Value.number?])]
  exact List.find?_cons_of_pos (by simp [hb])

/-! ## Results that are classified -/

theorem classified_miscounted (h : args.length ≠ 2) :
    Classified quotient args (.error (.arity 2 args.length)) := by
  have hnumbers : ∀ x y : Number.Double, args ≠ [.number x, .number y] := by
    intro x y hargs
    rw [hargs] at h
    exact h rfl
  refine ⟨?_, ?_, ?_, ?_, by simp⟩
  · intro expected got
    simp [h, eq_comm]
  · intro expected got
    exact iff_of_false (by simp) fun hr => h hr.1
  · exact iff_of_false (by simp) fun ⟨_, x, y, hargs, _⟩ => hnumbers x y hargs
  · exact iff_of_false (by simp) fun ⟨x, y, hargs, _⟩ => hnumbers x y hargs

theorem classified_conflict (hlength : args.length = 2)
    (hv : args.find? (·.number?.isNone) = some v) :
    Classified quotient args (.error (.typeConflict "number" v)) := by
  have hnumbers : ∀ x y : Number.Double, args ≠ [.number x, .number y] := by
    intro x y hargs
    rw [hargs] at hv
    exact absurd hv (by simp [Value.number?])
  refine ⟨?_, ?_, ?_, ?_, by simp⟩
  · intro expected got
    exact iff_of_false (by simp) fun hr => hr.1 hlength
  · intro expected got
    simp [hlength, hv, eq_comm]
  · exact iff_of_false (by simp) fun ⟨_, x, y, hargs, _⟩ => hnumbers x y hargs
  · exact iff_of_false (by simp) fun ⟨x, y, hargs, _⟩ => hnumbers x y hargs

theorem classified_answer (h : ¬ (quotient ∧ y.isZero = true)) (reply : Reply) :
    Classified quotient [.number x, .number y] (.ok reply) := by
  refine ⟨?_, ?_, ?_, ?_, by simp⟩
  · intro expected got
    simp
  · intro expected got
    simp [Value.number?]
  · refine iff_of_false (by simp) fun ⟨hq, x', y', hargs, hy⟩ => h ⟨hq, ?_⟩
    simp only [List.cons.injEq, Value.number.injEq] at hargs
    exact hargs.2.1 ▸ hy
  · exact iff_of_true ⟨reply, rfl⟩ ⟨x, y, rfl, h⟩

theorem classified_zero (hq : quotient) (hy : y.isZero = true) :
    Classified quotient [.number x, .number y] (.error .divisionByZero) := by
  refine ⟨?_, ?_, ?_, ?_, by simp⟩
  · intro expected got
    simp
  · intro expected got
    simp [Value.number?]
  · exact iff_of_true rfl ⟨hq, x, y, rfl, hy⟩
  · refine iff_of_false (by simp) fun ⟨x', y', hargs, h⟩ => h ⟨hq, ?_⟩
    simp only [List.cons.injEq, Value.number.injEq] at hargs
    exact hargs.2.1 ▸ hy

/-! ## Calls -/

theorem pair_of_length (h : args.length ≠ 2) : pair args = .error (.arity 2 args.length) := by
  unfold pair
  split
  · exact absurd rfl h
  · rfl

theorem number_of_none (h : v.number? = none) : number v = .error (.typeConflict "number" v) := by
  cases v with
  | number n => exact absurd h (by simp [Value.number?])
  | unassigned | bool | symbol | position => rfl

/-- **A call that looks at its two arguments from the left is classified**, if it answers numbers. -/
theorem classified_of_checks {call : Value × Value → Except OperationError Reply}
    {answer : Value → Value → Number.Double → Number.Double → Except OperationError Reply}
    (hq : ¬ quotient)
    (hcall : ∀ a b, call (a, b) = number a >>= fun x => number b >>= fun y => answer a b x y)
    (hanswer : ∀ x y, ∃ reply, answer (.number x) (.number y) x y = .ok reply) (args : List Value) :
    Classified quotient args (pair args >>= call) := by
  cases supplied args with
  | miscounted h =>
      rw [pair_of_length h]
      exact classified_miscounted h
  | @first a b ha =>
      show Classified quotient [a, b] (call (a, b))
      rw [hcall, number_of_none ha]
      exact classified_conflict rfl (leftmost_first ha)
  | @second x b hb =>
      show Classified quotient [.number x, b] (call (.number x, b))
      rw [hcall, number_of_none hb]
      exact classified_conflict rfl (leftmost_second hb)
  | numbers x y =>
      obtain ⟨reply, hreply⟩ := hanswer x y
      have hnumbers : call (.number x, .number y) = .ok reply := (hcall _ _).trans hreply
      show Classified quotient [.number x, .number y] (call (.number x, .number y))
      rw [hnumbers]
      exact classified_answer (fun h => hq h.1) reply

/-- Two numbers have a value under an operator, so the complaint that they have none is never made. -/
theorem classified_onNumbers (hq : ¬ quotient) (f : Number.Double → Number.Double → Number.Double)
    (args : List Value) : Classified quotient args (onNumbers (Value.combine f) args) :=
  classified_of_checks hq (fun _ _ => rfl) (fun x y => ⟨.silent (.number (f x y)), rfl⟩) args

theorem classified_onOrder (hq : ¬ quotient) (wanted : Ordering → Bool) (args : List Value) :
    Classified quotient args (onOrder wanted args) :=
  classified_of_checks hq (fun _ _ => rfl)
    (fun x y => ⟨.silent (.bool ((x.compare? y).any wanted)), rfl⟩) args

variable {f : Number.Double → Number.Double → Number.Double}

theorem onQuotient_number (a : Value) : onQuotient f [a, .number y] =
    if y.isZero then .error .divisionByZero
    else number a >>= fun x => pure (Reply.silent (.number (f x y))) := by
  show (if y.isZero then throw OperationError.divisionByZero else _) = _
  split
  · rfl
  · rfl

theorem onQuotient_of_none {a b : Value} (hb : b.number? = none) :
    onQuotient f [a, b] = .error (.typeConflict "number" b) := by
  show (number b >>= _) = _
  rw [number_of_none hb]
  rfl

/-- What is told of the divisor is told first. -/
theorem Masked.onQuotient (h : Masked args e) : onQuotient f args = .error e := by
  cases h with
  | conflict _ hb _ => exact onQuotient_of_none hb
  | zero _ hy => rw [onQuotient_number, if_pos hy]

/-- A result that is told of the divisor is not the one that the arguments ask for. -/
theorem Masked.not_classified (h : Masked args e) : ¬ Classified quotient args (.error e) := by
  intro hc
  cases h with
  | @conflict a b ha hb hne =>
      obtain ⟨_, _, hfind⟩ := (hc.conflict _ _).mp rfl
      rw [leftmost_first ha] at hfind
      exact hne (Option.some.inj hfind).symm
  | zero ha _ =>
      obtain ⟨_, x, y, hargs, _⟩ := hc.zero.mp rfl
      rw [(List.cons.inj hargs).1] at ha
      exact absurd ha (by simp [Value.number?])

/-- **A call of division is classified** unless the divisor masks the dividend. -/
theorem classified_onQuotient (hq : quotient) (h : ∀ e, ¬ Masked args e) :
    Classified quotient args (onQuotient f args) := by
  cases supplied args with
  | miscounted hlength =>
      rw [Standard.onQuotient, pair_of_length hlength]
      exact classified_miscounted hlength
  | @first a b ha =>
      have hconflict : onQuotient f [a, b] = .error (.typeConflict "number" a) := by
        cases hb : b.number? with
        | none =>
            have hsame : b = a := by
              by_contra hne
              exact h _ (.conflict ha hb hne)
            rw [onQuotient_of_none hb, hsame]
        | some y =>
            obtain rfl := eq_number hb
            have hy : ¬ y.isZero = true := fun hy => h _ (.zero ha hy)
            rw [onQuotient_number, if_neg hy, number_of_none ha]
            rfl
      rw [hconflict]
      exact classified_conflict rfl (leftmost_first ha)
  | @second x b hb =>
      rw [onQuotient_of_none hb]
      exact classified_conflict rfl (leftmost_second hb)
  | numbers x y =>
      rw [onQuotient_number]
      by_cases hy : y.isZero = true
      · rw [if_pos hy]
        exact classified_zero hq hy
      · rw [if_neg hy]
        exact classified_answer (fun h => hy h.2) _

/-! ## What is answered -/

variable {reply : Reply}

theorem onNumbers_eq_ok_iff : onNumbers (Value.combine f) args = .ok reply ↔
    ∃ x y, args = [.number x, .number y] ∧ reply = .silent (.number (f x y)) := by
  constructor
  · intro h
    have hclassified : Classified False args (onNumbers (Value.combine f) args) :=
      classified_onNumbers id f args
    obtain ⟨x, y, rfl, _⟩ := hclassified.answer.mp ⟨reply, h⟩
    exact ⟨x, y, rfl, (Except.ok.inj h).symm⟩
  · intro h
    obtain ⟨x, y, rfl, rfl⟩ := h
    rfl

theorem onQuotient_eq_ok_iff : onQuotient f args = .ok reply ↔
    ∃ x y, args = [.number x, .number y] ∧ ¬ y.isZero = true
      ∧ reply = .silent (.number (f x y)) := by
  constructor
  · intro h
    have hunmasked : ∀ e, ¬ Masked args e := by
      intro e he
      exact absurd (he.onQuotient.symm.trans h) (by simp)
    have hclassified : Classified True args (onQuotient f args) :=
      classified_onQuotient trivial hunmasked
    obtain ⟨x, y, rfl, hy⟩ := hclassified.answer.mp ⟨reply, h⟩
    have hzero : ¬ y.isZero = true := fun hz => hy ⟨trivial, hz⟩
    rw [onQuotient_number, if_neg hzero] at h
    exact ⟨x, y, rfl, hzero, (Except.ok.inj h).symm⟩
  · intro h
    obtain ⟨x, y, rfl, hzero, rfl⟩ := h
    rw [onQuotient_number, if_neg hzero]
    rfl

/-! ## The nine operations -/

/-- The names of the operations on two numbers. -/
def numericNames : List String := ["+", "-", "*", "/", "rem", "<", ">", "<=", ">="]

/-- The operations that a zero can be handed to as a divisor. -/
def Divides (name : String) : Prop := name = "/" ∨ name = "rem"

theorem exists_numeric {name : String} (h : name ∈ numericNames) :
    ∃ s, ofName? name = some s ∧
      ((¬ Divides name ∧ ∀ args, Classified (Divides name) args (s.host args))
        ∨ Divides name ∧ ∃ f, s.host = onQuotient f) := by
  simp only [numericNames, List.mem_cons, List.not_mem_nil, or_false] at h
  rcases h with rfl | rfl | rfl | rfl | rfl | rfl | rfl | rfl | rfl
  · exact ⟨add, rfl, Or.inl ⟨by simp [Divides], classified_onNumbers (by simp [Divides]) _⟩⟩
  · exact ⟨sub, rfl, Or.inl ⟨by simp [Divides], classified_onNumbers (by simp [Divides]) _⟩⟩
  · exact ⟨mul, rfl, Or.inl ⟨by simp [Divides], classified_onNumbers (by simp [Divides]) _⟩⟩
  · exact ⟨div, rfl, Or.inr ⟨by simp [Divides], _, rfl⟩⟩
  · exact ⟨rem, rfl, Or.inr ⟨by simp [Divides], _, rfl⟩⟩
  · exact ⟨less, rfl, Or.inl ⟨by simp [Divides], classified_onOrder (by simp [Divides]) _⟩⟩
  · exact ⟨greater, rfl, Or.inl ⟨by simp [Divides], classified_onOrder (by simp [Divides]) _⟩⟩
  · exact ⟨lessEq, rfl, Or.inl ⟨by simp [Divides], classified_onOrder (by simp [Divides]) _⟩⟩
  · exact ⟨greaterEq, rfl, Or.inl ⟨by simp [Divides], classified_onOrder (by simp [Divides]) _⟩⟩

/--
**What a call of one of the nine operations comes to.**

Whatever it is called with, an operation on two numbers tells a wrong count, or else the leftmost
argument that is no number, or else, if it divides, a zero divisor, or else it answers; with one
exception. Where a dividend is no number and the divisor is wrong as well, one that divides tells what
is wrong with the divisor.
-/
theorem numeric_calls {name : String} (hname : name ∈ numericNames) (args : List Value) :
    ∃ s, ofName? name = some s ∧
      (Classified (Divides name) args (s.host args) ↔
        ¬ (Divides name ∧ ∃ e, Masked args e)) ∧
      (Divides name → ∀ e, Masked args e → s.host args = .error e) ∧
      ∀ why, s.host args ≠ .error (.other why) := by
  obtain ⟨s, hs, hhost⟩ := exists_numeric hname
  refine ⟨s, hs, ?_⟩
  rcases hhost with ⟨hq, hall⟩ | ⟨hq, f, hf⟩
  · have hclassified := hall args
    exact ⟨iff_of_true hclassified fun h => hq h.1, fun h => absurd h hq, hclassified.other⟩
  · rw [hf]
    by_cases hmasked : ∃ e, Masked args e
    · obtain ⟨e, he⟩ := hmasked
      have hother : ∀ why, e ≠ .other why := by
        intro why
        cases he with
        | conflict | zero => simp
      refine ⟨?_, fun _ _ h => h.onQuotient, ?_⟩
      · rw [he.onQuotient]
        exact iff_of_false he.not_classified fun h => h ⟨hq, e, he⟩
      · intro why
        rw [he.onQuotient]
        exact fun h => hother why (Except.error.inj h)
    · have hclassified := classified_onQuotient (f := f) hq (not_exists.mp hmasked)
      exact ⟨iff_of_true hclassified fun h => hmasked h.2, fun _ _ h => h.onQuotient,
        hclassified.other⟩

/-- A remainder of two numbers, and of something else by a number. -/
theorem numeric_calls_rem :
    "rem" ∈ numericNames ∧
      (∃ s, ofName? "rem" = some s ∧
        Classified (Divides "rem") [.bool true, .number ⟨0x3FF0000000000000⟩]
          (s.host [.bool true, .number ⟨0x3FF0000000000000⟩])) ∧
      ∃ s, ofName? "rem" = some s ∧
        s.host [.bool true, .symbol "b"] = .error (.typeConflict "number" (.symbol "b")) := by
  have hname : "rem" ∈ numericNames := by decide
  obtain ⟨s, hs, hclassified, _, _⟩ :=
    numeric_calls hname [.bool true, .number ⟨0x3FF0000000000000⟩]
  obtain ⟨s', hs', _, hmasked, _⟩ := numeric_calls hname [.bool true, .symbol "b"]
  refine ⟨hname, ⟨s, hs, hclassified.mpr ?_⟩, s', hs', ?_⟩
  · intro h
    obtain ⟨_, e, he⟩ := h
    cases he with
    | conflict _ hb _ => exact absurd hb (by simp [Value.number?])
    | zero _ hy => exact absurd hy (by decide)
  · exact hmasked (Or.inr rfl) _ (.conflict rfl rfl (by decide))

/-- **A symbol divided by zero is not told**, though it is the only argument that is no number. -/
theorem not_classified_symbol_by_zero :
    ∃ s, ofName? "/" = some s ∧
      s.host [.symbol "a", .number ⟨0⟩] = .error .divisionByZero ∧
      ¬ Classified (Divides "/") [.symbol "a", .number ⟨0⟩]
        (s.host [.symbol "a", .number ⟨0⟩]) := by
  have hcall : div.host [.symbol "a", .number ⟨0⟩] = .error .divisionByZero := rfl
  have hmasked : Masked [.symbol "a", .number ⟨0⟩] .divisionByZero := .zero rfl (by decide)
  refine ⟨div, rfl, hcall, ?_⟩
  rw [hcall]
  exact hmasked.not_classified

/-! ## Operators of values -/

/-- The operator of values that goes by the name of an operation. -/
def operator? : Standard → Option (Value → Value → Option Value)
  | add => some Value.add?
  | sub => some Value.sub?
  | mul => some Value.mul?
  | div => some Value.div?
  | rem => some Value.rem?
  | equal | less | greater | lessEq | greaterEq | not | print => none

theorem exists_operator {s : Standard} {op : Value → Value → Option Value}
    (h : s.operator? = some op) : ∃ f, op = Value.combine f ∧
      ((¬ Divides s.name ∧ s.host = onNumbers op) ∨ Divides s.name ∧ s.host = onQuotient f) := by
  cases s with
  | add | sub | mul =>
      rw [← Option.some.inj h]
      exact ⟨_, rfl, Or.inl ⟨by simp [Divides, name], rfl⟩⟩
  | div | rem =>
      rw [← Option.some.inj h]
      exact ⟨_, rfl, Or.inr ⟨by simp [Divides, name], rfl⟩⟩
  | equal | less | greater | lessEq | greaterEq | not | print => exact absurd h (by simp [operator?])

/-- **Arithmetic is that of values.** An operation answers what the operator of its name has for its
two arguments, unless that is to divide by zero. -/
theorem host_eq_ok_iff {s : Standard} {op : Value → Value → Option Value}
    (h : s.operator? = some op) : s.host args = .ok reply ↔
      ∃ a b v, args = [a, b] ∧ op a b = some v ∧ reply = .silent v
        ∧ ¬ (Divides s.name ∧ ∃ y, b = .number y ∧ y.isZero = true) := by
  obtain ⟨f, rfl, ⟨hq, hhost⟩ | ⟨hq, hhost⟩⟩ := exists_operator h
  · rw [hhost, onNumbers_eq_ok_iff]
    constructor
    · intro h
      obtain ⟨x, y, rfl, rfl⟩ := h
      exact ⟨_, _, _, rfl, rfl, rfl, fun hd => hq hd.1⟩
    · intro h
      obtain ⟨a, b, v, rfl, hv, rfl, _⟩ := h
      obtain ⟨x, y, rfl, rfl, rfl⟩ := Value.combine_eq_some_iff.mp hv
      exact ⟨x, y, rfl, rfl⟩
  · rw [hhost, onQuotient_eq_ok_iff]
    constructor
    · intro h
      obtain ⟨x, y, rfl, hzero, rfl⟩ := h
      refine ⟨_, _, _, rfl, rfl, rfl, ?_⟩
      intro hd
      obtain ⟨_, z, hz, hzz⟩ := hd
      rw [← Value.number.inj hz] at hzz
      exact hzero hzz
    · intro h
      obtain ⟨a, b, v, rfl, hv, rfl, hnot⟩ := h
      obtain ⟨x, y, rfl, rfl, rfl⟩ := Value.combine_eq_some_iff.mp hv
      exact ⟨x, y, rfl, fun hzero => hnot ⟨hq, y, rfl, hzero⟩, rfl⟩

/-- On truth values the operation `not` answers what the operator has. -/
theorem not_host_of_not? {v w : Value} (h : v.not? = some w) : not.host [v] = .ok (.silent w) := by
  cases v with
  | bool b => rw [← Option.some.inj h]; rfl
  | unassigned | number | symbol | position => exact absurd h (by simp [Value.not?])

/-- What is the negative of a value has that value as its negative. -/
theorem neg?_of_neg? {v w : Value} (h : v.neg? = some w) : w.neg? = some v := by
  cases v with
  | number x =>
      rw [← Option.some.inj h]
      exact congrArg (fun n => some (Value.number n)) (Number.Double.neg_neg x)
  | unassigned | bool | symbol | position => exact absurd h (by simp [Value.neg?])

end RegisterMachine.Standard
