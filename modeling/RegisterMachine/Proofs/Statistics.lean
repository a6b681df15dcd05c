import Mathlib.Data.List.DropRight
import RegisterMachine.State.Stack

/-!
# What a stack counts

A stack carries two numbers beside its values: how many values were pushed and how deep it was. What
they stand for is a matter of the whole history of the stack: what was asked of it (`Use`) and what
came of it (`Event`) since it was last cleared. The same history tells what a pop gives: the value
that was pushed last among those that were not popped again. "Popped again" is a matter of brackets
(`Nested`), and said without any stack.

No single stack shows its history, so all of this is proved by induction over the uses, the last one
last, from what one use does (`Used`). Nothing here knows of a machine.
-/

namespace RegisterMachine.Stack

/-- What can be asked of a stack. -/
inductive Use where
  | push (v : Value)
  | pop
  | clear
deriving DecidableEq

/-- What came of it. -/
inductive Event where
  | pushed (v : Value)
  | popped (v : Value)
  /-- There was nothing to pop. -/
  | missed
  | cleared
deriving DecidableEq

/-- What comes of a use, and the stack afterwards. -/
def use (s : Stack) : Use → Event × Stack
  | .push v => (.pushed v, s.push v)
  | .pop =>
    match InPlace.pop.on s with
    | (.ok v, s') => (.popped v, s')
    | (.error _, s') => (.missed, s')
  | .clear => (.cleared, .empty)

/-- The stack after some uses of it. -/
def after (s : Stack) (us : List Use) : Stack := us.foldl (fun s u => (s.use u).2) s

/-- What comes of these uses. -/
def events (s : Stack) : List Use → List Event
  | [] => []
  | u :: us => (s.use u).1 :: (s.use u).2.events us

/-! ## What histories say -/

def Event.isPush : Event → Bool
  | .pushed _ => true
  | .popped _ | .missed | .cleared => false

def Event.isPop : Event → Bool
  | .popped _ => true
  | .pushed _ | .missed | .cleared => false

/-- What came since the stack was last cleared, or since it was new. -/
def recent (es : List Event) : List Event := es.rtakeWhile (· ≠ .cleared)

/-- After the first of these uses, `before`, the stack was not cleared any more. -/
def Since (us before : List Use) : Prop := ∃ rest, us = before ++ rest ∧ .clear ∉ rest

/-- A stretch in which everything that was pushed was popped again, as brackets are closed. -/
inductive Nested : List Event → Prop where
  | nil : Nested []
  | nest {v w : Value} {as bs : List Event} (ha : Nested as) (hb : Nested bs) :
      Nested (.pushed v :: (as ++ .popped w :: bs))

/-- The value was pushed last among those that were not popped again. -/
def LastIn (es : List Event) (v : Value) : Prop :=
  ∃ before between, es = before ++ .pushed v :: between ∧ Nested between

/-- What a stack that was new before these uses tells of them. -/
structure Accounts (us : List Use) (s : Stack) : Prop where
  pushes : s.pushes = (recent (empty.events us)).countP Event.isPush
  depth : s.depth + (recent (empty.events us)).countP Event.isPop = s.pushes
  /-- The greatest depth was reached at some moment since the stack was last cleared. -/
  reached : ∃ before, Since us before ∧ (empty.after before).depth = s.maxDepth
  /-- No depth was greater since then. -/
  highest : ∀ before, Since us before → (empty.after before).depth ≤ s.maxDepth
  depth_le : s.depth ≤ s.maxDepth
  maxDepth_le : s.maxDepth ≤ s.pushes
  fails : ∀ f, s.pop = .error f ↔ f = .emptyStack ∧ s.depth = 0
  /-- A pop that fails changes nothing. -/
  missed : s.use .pop = (.missed, s) ↔ s.depth = 0
  pops : ∀ v, (∃ s', s.pop = .ok (v, s')) ↔ LastIn (empty.events us) v

/-! ## One use -/

variable {s s' s'' : Stack} {u : Use} {e : Event} {es fs : List Event} {us : List Use} {v : Value}

/-- What a use does. -/
inductive Used (s : Stack) : Use → Event → Stack → Prop where
  | push (v : Value) : Used s (.push v) (.pushed v) (s.push v)
  | pop {v : Value} {s' : Stack} (h : s.pop = .ok (v, s')) : Used s .pop (.popped v) s'
  | miss (h : s.depth = 0) : Used s .pop .missed s
  | clear : Used s .clear .cleared .empty

/-- **Uses, taken apart.** -/
theorem use_used (s : Stack) (u : Use) : s.Used u (s.use u).1 (s.use u).2 := by
  cases u with
  | push v => exact .push v
  | clear => exact .clear
  | pop =>
      -- popped or missed in place, with what a pop as a whole leaves
      simp only [use, InPlace.on_pop]
      cases h : s.pop with
      | ok x => exact .pop h
      | error f => exact .miss (pop_eq_error_iff.mp h).2

/-- A pop that fails changes nothing. -/
theorem use_pop_eq_missed : s.use .pop = (.missed, s) ↔ s.depth = 0 := by
  constructor
  · intro h
    have hu := use_used s .pop
    rw [h] at hu
    cases hu with
    | miss h => exact h
  · intro h
    simp only [use, InPlace.on_pop, pop_eq_error_iff.mpr ⟨rfl, h⟩]
    rfl

/-- A stack gives the value on top of it. -/
theorem exists_pop_iff : (∃ s', s.pop = .ok (v, s')) ↔ ∃ below : Array Value, s.values = below.push v := by
  constructor
  · intro h
    obtain ⟨s', h⟩ := h
    exact ⟨s'.values, values_of_pop h⟩
  · intro h
    obtain ⟨below, h⟩ := h
    refine ⟨{ s with values := s.values.pop }, ?_⟩
    unfold pop
    rw [h, Array.back?_push]

/-- Popping leaves the counts alone. -/
theorem counts_of_pop (h : s.pop = .ok (v, s')) :
    s'.pushes = s.pushes ∧ s'.maxDepth = s.maxDepth := by
  unfold pop at h
  split at h
  · obtain ⟨_, rfl⟩ := Prod.mk.inj (Except.ok.inj h)
    exact ⟨rfl, rfl⟩
  · exact absurd h (by simp)

theorem after_append (s : Stack) (us us' : List Use) :
    s.after (us ++ us') = (s.after us).after us' := List.foldl_append

theorem after_concat (s : Stack) (us : List Use) (u : Use) :
    s.after (us ++ [u]) = ((s.after us).use u).2 := after_append s us [u]

theorem events_concat (s : Stack) (us : List Use) (u : Use) :
    s.events (us ++ [u]) = s.events us ++ [((s.after us).use u).1] := by
  induction us generalizing s with
  | nil => rfl
  | cons u' us ih => exact congrArg ((s.use u').1 :: ·) (ih (s.use u').2)

/-! ## Counting -/

/-- The numbers of a stack are those of what came since it was last cleared. -/
structure Tallied (es : List Event) (s : Stack) : Prop where
  pushes : s.pushes = (recent es).countP Event.isPush
  depth : s.depth + (recent es).countP Event.isPop = s.pushes
  depth_le : s.depth ≤ s.maxDepth
  maxDepth_le : s.maxDepth ≤ s.pushes

theorem countP_recent (es : List Event) (h : e ≠ .cleared) (p : Event → Bool) :
    (recent (es ++ [e])).countP p = (recent es).countP p + [e].countP p := by
  have hrecent : recent (es ++ [e]) = recent es ++ [e] :=
    List.rtakeWhile_concat_pos _ _ _ (decide_eq_true h)
  rw [hrecent, List.countP_append]

theorem recent_cleared (es : List Event) : recent (es ++ [.cleared]) = [] :=
  List.rtakeWhile_concat_neg _ _ _ (by simp)

/-- **Every use is counted.** -/
theorem Tallied.used (h : Tallied es s) (hu : s.Used u e s') : Tallied (es ++ [e]) s' := by
  obtain ⟨hpushes, hdepth, hle, hmax⟩ := h
  cases hu with
  | push v =>
      have hpushes' : (s.push v).pushes = s.pushes + 1 := rfl
      have hmax' : (s.push v).maxDepth = max s.maxDepth (s.depth + 1) := rfl
      have hdepth' := depth_push s v
      have hcount := countP_recent (e := .pushed v) es (by simp)
      have hpush : [Event.pushed v].countP Event.isPush = 1 := rfl
      have hpop : [Event.pushed v].countP Event.isPop = 0 := rfl
      exact ⟨by rw [hcount]; omega, by rw [hcount]; omega, by omega, by omega⟩
  | @pop v _ hv =>
      obtain ⟨hpushes', hmax'⟩ := counts_of_pop hv
      have hdepth' := depth_of_pop hv
      have hcount := countP_recent (e := .popped v) es (by simp)
      have hpush : [Event.popped v].countP Event.isPush = 0 := rfl
      have hpop : [Event.popped v].countP Event.isPop = 1 := rfl
      exact ⟨by rw [hcount]; omega, by rw [hcount]; omega, by omega, by omega⟩
  | miss =>
      have hcount := countP_recent (e := .missed) es (by simp)
      exact ⟨by rw [hcount]; exact hpushes, by rw [hcount]; exact hdepth, hle, hmax⟩
  | clear =>
      have hnone := recent_cleared es
      exact ⟨by rw [hnone]; rfl, by rw [hnone]; rfl, Nat.le_refl _, Nat.le_refl _⟩

theorem tallied_after (us : List Use) : Tallied (empty.events us) (empty.after us) := by
  induction us using List.reverseRecOn with
  | nil => exact ⟨rfl, rfl, Nat.le_refl _, Nat.le_refl _⟩
  | append_singleton us u ih =>
      rw [events_concat, after_concat]
      exact ih.used (use_used _ u)

/-! ## The greatest depth -/

theorem since_self (us : List Use) : Since us us := ⟨[], (List.append_nil us).symm, nofun⟩

/-- What comes before a use that clears nothing is as recent after it. -/
theorem since_concat {before : List Use} :
    Since (us ++ [u]) before ↔ before = us ++ [u] ∨ u ≠ .clear ∧ Since us before := by
  constructor
  · intro h
    obtain ⟨rest, happ, hclear⟩ := h
    rcases List.eq_nil_or_concat rest with rfl | ⟨rest, last, rfl⟩
    · rw [List.append_nil] at happ
      exact Or.inl happ.symm
    · rw [List.concat_eq_append, ← List.append_assoc] at happ
      rw [List.concat_eq_append, List.mem_append, List.mem_singleton, not_or] at hclear
      obtain ⟨rfl, hlast⟩ := List.append_inj' happ rfl
      obtain rfl := List.singleton_inj.mp hlast
      exact Or.inr ⟨Ne.symm hclear.2, rest, rfl, hclear.1⟩
  · intro h
    rcases h with rfl | ⟨hne, rest, rfl, hclear⟩
    · exact since_self _
    · refine ⟨rest ++ [u], List.append_assoc .., ?_⟩
      rw [List.mem_append, List.mem_singleton, not_or]
      exact ⟨hclear, Ne.symm hne⟩

/-- A use that clears nothing raises the greatest depth to the one that it leads to. -/
theorem Used.maxDepth_eq (hu : s.Used u e s') (hne : u ≠ .clear) (hle : s.depth ≤ s.maxDepth) :
    s'.maxDepth = max s.maxDepth s'.depth := by
  cases hu with
  | push v => rw [depth_push]; rfl
  | pop hpop =>
      have hdepth := depth_of_pop hpop
      rw [(counts_of_pop hpop).2]
      omega
  | miss => omega
  | clear => exact absurd rfl hne

/-- **The greatest depth** is one that was reached since the stack was last cleared, and no depth
since then was greater. -/
theorem maxDepth_after (us : List Use) :
    (∃ before, Since us before ∧ (empty.after before).depth = (empty.after us).maxDepth)
      ∧ ∀ before, Since us before → (empty.after before).depth ≤ (empty.after us).maxDepth := by
  induction us using List.reverseRecOn with
  | nil =>
      refine ⟨⟨[], since_self [], rfl⟩, ?_⟩
      intro before hbefore
      obtain ⟨rest, happ, _⟩ := hbefore
      obtain rfl := (List.append_eq_nil_iff.mp happ.symm).1
      exact Nat.le_refl _
  | append_singleton us u ih =>
      obtain ⟨⟨peak, hpeak, hreached⟩, hhighest⟩ := ih
      have hu := use_used (empty.after us) u
      rw [← after_concat] at hu
      by_cases hne : u = .clear
      · subst hne
        have hzero : empty.after (us ++ [.clear]) = empty := after_concat ..
        refine ⟨⟨_, since_self _, by rw [hzero]; rfl⟩, ?_⟩
        intro before hbefore
        rcases since_concat.mp hbefore with rfl | ⟨hne, _⟩
        · rw [hzero]
          exact Nat.le_refl _
        · exact absurd rfl hne
      · have hmax := hu.maxDepth_eq hne (tallied_after us).depth_le
        constructor
        · rcases Nat.le_total (empty.after us).maxDepth (empty.after (us ++ [u])).depth with hle | hle
          · exact ⟨_, since_self _, by omega⟩
          · exact ⟨peak, since_concat.mpr (Or.inr ⟨hne, hpeak⟩), by omega⟩
        · intro before hbefore
          rcases since_concat.mp hbefore with rfl | ⟨_, hbefore⟩
          · omega
          · have hle := hhighest before hbefore
            omega

/-! ## Last in, first out -/

/-- The events led from one stack to another. -/
inductive Went : Stack → List Event → Stack → Prop where
  | nil (s : Stack) : Went s [] s
  | cons {s s' s'' : Stack} {u : Use} {e : Event} {es : List Event} (hu : s.Used u e s')
      (h : Went s' es s'') : Went s (e :: es) s''

theorem went_after (s : Stack) (us : List Use) : Went s (s.events us) (s.after us) := by
  induction us generalizing s with
  | nil => exact .nil s
  | cons u us ih => exact .cons (use_used s u) (ih _)

theorem went_append : Went s (es ++ fs) s'' ↔ ∃ s', Went s es s' ∧ Went s' fs s'' := by
  induction es generalizing s with
  | nil =>
      constructor
      · intro h
        exact ⟨s, .nil s, h⟩
      · intro h
        obtain ⟨_, h, h'⟩ := h
        cases h with
        | nil => exact h'
  | cons e es ih =>
      constructor
      · intro h
        cases h with
        | cons hu h =>
            obtain ⟨s', hes, hfs⟩ := ih.mp h
            exact ⟨s', .cons hu hes, hfs⟩
      · intro h
        obtain ⟨s', h, hfs⟩ := h
        cases h with
        | cons hu h => exact .cons hu (ih.mpr ⟨s', h, hfs⟩)

theorem went_cons : Went s (e :: es) s'' ↔ ∃ u s', s.Used u e s' ∧ Went s' es s'' := by
  constructor
  · intro h
    cases h with
    | cons hu h => exact ⟨_, _, hu, h⟩
  · intro h
    obtain ⟨_, _, hu, h⟩ := h
    exact .cons hu h

theorem went_singleton : Went s [e] s' ↔ ∃ u, s.Used u e s' := by
  rw [went_cons]
  constructor
  · intro h
    obtain ⟨u, _, hu, h⟩ := h
    cases h with
    | nil => exact ⟨u, hu⟩
  · intro h
    obtain ⟨u, hu⟩ := h
    exact ⟨u, s', hu, .nil s'⟩

theorem Nested.append (h : Nested es) (h' : Nested fs) : Nested (es ++ fs) := by
  induction h with
  | nil => exact h'
  | nest ha _ _ ihb =>
      rw [List.cons_append, List.append_assoc, List.cons_append]
      exact .nest ha ihb

/-- **A stretch in which everything was popped again** leaves the values that were there. -/
theorem Nested.values_eq (h : Nested es) (hw : Went s es s') : s'.values = s.values := by
  induction h generalizing s s' with
  | nil =>
      cases hw with
      | nil => rfl
  | @nest v w as bs _ _ iha ihb =>
      obtain ⟨_, _, hpush, hw⟩ := went_cons.mp hw
      obtain ⟨t, has, hw⟩ := went_append.mp hw
      obtain ⟨_, t', hpop, hbs⟩ := went_cons.mp hw
      cases hpush with
      | push =>
          cases hpop with
          | pop hpop =>
              have htop : t'.values.push w = s.values.push v := by
                rw [← values_of_pop hpop, iha has]
                rfl
              rw [ihb hbs]
              simpa using congrArg Array.pop htop

/-- **Whatever is on top was pushed last** among what was not popped again, when the stack was what
is below it now. -/
theorem exists_lastIn {below : Array Value} (hw : Went empty es s)
    (hs : s.values = below.push v) :
    ∃ before between s₀, es = before ++ .pushed v :: between ∧ Nested between
      ∧ Went empty before s₀ ∧ s₀.values = below := by
  -- shorter histories are cut off at the last event, and again where a popped value was pushed
  induction hlen : es.length using Nat.strongRecOn generalizing es s below v with
  | ind n ih =>
      rcases List.eq_nil_or_concat es with rfl | ⟨es', e, rfl⟩
      · cases hw with
        | nil => exact absurd (congrArg Array.size hs) (by simp [empty])
      · rw [List.concat_eq_append] at hw hlen ⊢
        rw [List.length_append, List.length_singleton] at hlen
        obtain ⟨s', hw', hlast⟩ := went_append.mp hw
        obtain ⟨u, hu⟩ := went_singleton.mp hlast
        cases hu with
        | push w =>
            obtain ⟨rfl, hbelow⟩ := Array.push_eq_push.mp hs
            exact ⟨es', [], s', rfl, .nil, hw', hbelow⟩
        | @pop w _ hpop =>
            obtain ⟨b₁, n₁, s₁, rfl, hn₁, hw₁, hs₁⟩ :=
              ih es'.length (by omega) hw' (values_of_pop hpop) rfl
            rw [List.length_append] at hlen
            obtain ⟨b₂, n₂, s₂, rfl, hn₂, hw₂, hs₂⟩ :=
              ih b₁.length (by omega) hw₁ (hs₁.trans hs) rfl
            refine ⟨b₂, n₂ ++ .pushed w :: (n₁ ++ [.popped w]), s₂, ?_,
              hn₂.append (.nest hn₁ .nil), hw₂, hs₂⟩
            simp only [List.append_assoc, List.cons_append]
        | miss hzero =>
            unfold depth at hzero
            exact absurd (hzero.symm.trans (congrArg Array.size hs)) (by simp)
        | clear => exact absurd (congrArg Array.size hs) (by simp [empty])

/-- **Last in, first out.** -/
theorem pop_after (us : List Use) (v : Value) :
    (∃ s', (empty.after us).pop = .ok (v, s')) ↔ LastIn (empty.events us) v := by
  have hw := went_after empty us
  rw [exists_pop_iff]
  constructor
  · intro h
    obtain ⟨below, hs⟩ := h
    obtain ⟨before, between, _, hes, hn, _⟩ := exists_lastIn hw hs
    exact ⟨before, between, hes, hn⟩
  · intro h
    obtain ⟨before, between, hes, hn⟩ := h
    rw [hes] at hw
    obtain ⟨s₀, _, hw⟩ := went_append.mp hw
    obtain ⟨_, s₁, hpush, hbetween⟩ := went_cons.mp hw
    cases hpush with
    | push => exact ⟨s₀.values, hn.values_eq hbetween⟩

/-- **A stack tells exactly what happened to it.** -/
theorem accounts_after (us : List Use) : (empty.after us).Accounts us := by
  obtain ⟨hpushes, hdepth, hle, hmax⟩ := tallied_after us
  obtain ⟨hreached, hhighest⟩ := maxDepth_after us
  exact ⟨hpushes, hdepth, hreached, hhighest, hle, hmax, fun _ => pop_eq_error_iff,
    use_pop_eq_missed, pop_after us⟩

end RegisterMachine.Stack
