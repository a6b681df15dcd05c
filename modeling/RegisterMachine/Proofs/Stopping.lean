import Mathlib.Data.Set.Basic
import RegisterMachine.Proofs.Parsing
import RegisterMachine.Proofs.Spelling

/-!
# Stopping at the first wrong word

A reading that fails should do so as early as it can: what was taken before the last token can still
be completed, and what was taken with it cannot. `Reading.Stops` says that of a reading and of the
rows of words that it is meant for.

That something cannot be completed is said in a stronger form than one would think of first
(`Barred`). No row is a continuation of what was taken, but no row is the beginning of it either.
Only so does it go through a sequence: when the first part of a sequence fails, its own rows must
not end where another part could take over. Where a row may be the beginning of another, as the
inputs of an operation are, the parenthesis behind them has to be looked at together with them.
-/

namespace RegisterMachine

/-- The errors that a token can cause, all of which show it. -/
inductive ReadError.Blames (t : Token) : ReadError → Prop where
  | unexpected (wanted : Expectation) : Blames t (.unexpected wanted t.kind t.text)
  | unknownForm : Blames t (.unknownForm t.text)
  | badToken : Blames t (.badToken t.text)

/-! ## Beginnings -/

/-- Words that can be completed to a row of these, by words that can be written. -/
def Viable (L : Set (List Word)) (ws : List Word) : Prop :=
  ∃ more, (∀ w ∈ more, w.Spelled) ∧ ws ++ more ∈ L

/-- Words that no row of these begins with, and that do not begin with any of the rows. -/
def Barred (L : Set (List Word)) (ws : List Word) : Prop := ∀ v ∈ L, ∀ r s, v ++ r ≠ ws ++ s

/-- Where and why a reading has stopped that was meant to take one of these rows of words. -/
inductive Stopped (L : Set (List Word)) (c : Cursor) : ReadError → Cursor → Prop where
  /-- The text ended too soon. -/
  | ended {ws : List Word} {d c' : Cursor} (h : c.Passes ws d) (hend : d.rest = [])
      (hc : c' = d ∨ c' = ⟨.finish, []⟩) (hv : Viable L ws) : Stopped L c .endOfText c'
  /-- The token that was taken last cannot stand where it does. -/
  | barred {ws : List Word} {d : Cursor} {t : Token} {rest : List Token} {e : ReadError}
      (h : c.Passes ws d) (hrest : d.rest = t :: rest) (he : e.Blames t) (hv : Viable L ws)
      (hb : Barred L (ws ++ [t.word])) : Stopped L c e ⟨.after t, rest⟩

section Stopped

variable {K L : Set (List Word)} {c c' d : Cursor} {e : ReadError} {u : List Word}

theorem peek_of_words {w : Word} {ws : List Word} (h : c.rest.map Token.word = w :: ws) :
    c.peek = some w.kind := by
  obtain ⟨t, rest, hrest, rfl, _⟩ := List.map_eq_cons_iff.mp h
  rw [Cursor.peek, hrest]
  rfl

/-- **Stopping in the first part of something.** Rows that have no such first part are told by the
next token. -/
theorem Stopped.front (h : Stopped K c e c')
    (hnext : ∀ u ∈ K, ∃ v, (∀ w ∈ v, w.Spelled) ∧ u ++ v ∈ L)
    (hfirst : ∀ l ∈ L, (∃ u ∈ K, u <+: l) ∨ ∃ w v, l = w :: v ∧ c.peek ≠ some w.kind) :
    Stopped L c e c' := by
  have hviable : ∀ {ws}, Viable K ws → Viable L ws := by
    intro ws hv
    obtain ⟨more, hmore, hrow⟩ := hv
    obtain ⟨v, hv, hrow⟩ := hnext _ hrow
    exact ⟨more ++ v, List.forall_mem_append.mpr ⟨hmore, hv⟩, by rwa [← List.append_assoc]⟩
  cases h with
  | ended h hend hc hv => exact .ended h hend hc (hviable hv)
  | @barred ws d t rest e h hrest he hv hb =>
      refine .barred h hrest he (hviable hv) ?_
      intro l hl r s heq
      rcases hfirst l hl with ⟨u, hu, z, rfl⟩ | ⟨w, v, rfl, hpeek⟩
      · rw [List.append_assoc] at heq
        exact hb u hu _ _ heq
      · -- the row would begin with the next token
        have hwords := h.words
        rw [hrest, List.map_cons, ← List.singleton_append, ← List.append_assoc] at hwords
        cases htaken : ws ++ [t.word] with
        | nil => exact absurd htaken (by simp)
        | cons w' ws' =>
            rw [htaken] at heq hwords
            rw [← (List.cons.inj heq).1] at hwords
            exact hpeek (peek_of_words hwords)

/-- **Stopping behind a part that was taken.** -/
theorem Stopped.behind (hp : c.Passes u d) (h : Stopped {v | u ++ v ∈ L} d e c')
    (hfirst : ∀ l ∈ L, ∀ r s, l ++ r = u ++ s → u <+: l) : Stopped L c e c' := by
  have hviable : ∀ {ws}, Viable {v | u ++ v ∈ L} ws → Viable L (u ++ ws) := by
    intro ws hv
    obtain ⟨more, hmore, hrow⟩ := hv
    exact ⟨more, hmore, by rw [List.append_assoc]; exact hrow⟩
  cases h with
  | ended h hend hc hv => exact .ended (hp.append h) hend hc (hviable hv)
  | barred h hrest he hv hb =>
      refine .barred (hp.append h) hrest he (hviable hv) ?_
      intro l hl r s heq
      rw [List.append_assoc, List.append_assoc] at heq
      obtain ⟨v, rfl⟩ := hfirst l hl _ _ heq
      rw [List.append_assoc] at heq
      exact hb v hl r s (by rw [List.append_assoc]; exact List.append_cancel_left heq)

end Stopped

namespace Reading

open Cursor (Genuine)
open Word (closing spelled_closing)

variable {α β τ : Type} {c c' : Cursor} {e : ReadError} {L : Set (List Word)}

/-! ## Errors of compound readings -/

theorem bind_eq_error {p : Reading α} {f : α → Reading β} :
    (p >>= f) c = (.error e, c') ↔
      p c = (.error e, c') ∨ ∃ a d, p c = (.ok a, d) ∧ f a d = (.error e, c') := by
  show Reading.bind p f c = _ ↔ _
  unfold Reading.bind
  cases hp : p c with
  | mk r d =>
      cases r with
      | error e' => simp
      | ok a =>
          constructor
          · intro h
            exact Or.inr ⟨a, d, rfl, h⟩
          · intro h
            rcases h with h | ⟨a', d', h, hf⟩
            · exact absurd (congrArg Prod.fst h) (by simp)
            · cases h
              exact hf

theorem pure_ne_error {a : α} : (pure a : Reading α) c ≠ (.error e, c') := by
  intro h
  exact absurd (congrArg Prod.fst h) (by simp [pure, Reading.pure])

theorem fail_eq_error {e' : ReadError} :
    (fail e' : Reading α) c = (.error e, c') ↔ e' = e ∧ c = c' := by
  simp [fail]

theorem fail_bind {e : ReadError} {f : α → Reading β} : (fail e >>= f) = fail e := rfl

/-- Taking a token fails for one that is never closed. -/
theorem next_error (h : next c = (.error e, c')) :
    ∃ t rest, c.rest = t :: rest ∧ t.kind = .unclosed ∧ e = .badToken t.text
      ∧ c' = ⟨.after t, rest⟩ := by
  unfold next Cursor.next at h
  cases hrest : c.rest with
  | nil =>
      rw [hrest] at h
      exact absurd (congrArg Prod.fst h) (by simp)
  | cons t rest =>
      rw [hrest] at h
      dsimp only at h
      by_cases ht : t.kind = .unclosed
      · rw [if_pos ht] at h
        cases h
        exact ⟨t, rest, rfl, ht, rfl, rfl⟩
      · rw [if_neg ht] at h
        exact absurd (congrArg Prod.fst h) (by simp)

theorem next_none (h : next c = (.ok none, c')) : c.rest = [] ∧ c' = ⟨.finish, []⟩ := by
  unfold next Cursor.next at h
  cases hrest : c.rest with
  | nil =>
      rw [hrest] at h
      cases h
      exact ⟨rfl, rfl⟩
  | cons t rest =>
      rw [hrest] at h
      dsimp only at h
      by_cases ht : t.kind = .unclosed
      · rw [if_pos ht] at h
        exact absurd (congrArg Prod.fst h) (by simp)
      · rw [if_neg ht] at h
        exact absurd (congrArg Prod.fst h) (by simp)

/-- Taking a token that has to be there fails at the end too. -/
theorem token_error (h : token c = (.error e, c')) :
    c.rest = [] ∧ e = .endOfText ∧ c' = ⟨.finish, []⟩
      ∨ ∃ t rest, c.rest = t :: rest ∧ t.kind = .unclosed ∧ e = .badToken t.text
          ∧ c' = ⟨.after t, rest⟩ := by
  rcases bind_eq_error.mp h with h | ⟨t, d, hnext, h⟩
  · exact Or.inr (next_error h)
  · cases t with
    | some t => exact absurd h pure_ne_error
    | none =>
        obtain ⟨hrest, rfl⟩ := next_none hnext
        obtain ⟨rfl, rfl⟩ := fail_eq_error.mp h
        exact Or.inl ⟨hrest, rfl, rfl⟩

/-- Taking a token of some kind fails for one of another. -/
theorem expect_error {wanted : Expectation} (hwanted : wanted.kind ≠ some .unclosed)
    (h : expect wanted c = (.error e, c')) :
    c.rest = [] ∧ e = .endOfText ∧ c' = ⟨.finish, []⟩
      ∨ ∃ t rest, c.rest = t :: rest ∧ some t.kind ≠ wanted.kind ∧ e.Blames t
          ∧ c' = ⟨.after t, rest⟩ := by
  rcases bind_eq_error.mp h with h | ⟨t, d, ht, h⟩
  · rcases token_error h with hend | ⟨t, rest, hrest, hkind, rfl, rfl⟩
    · exact Or.inl hend
    · exact Or.inr ⟨t, rest, hrest, by rw [hkind]; exact hwanted.symm, .badToken, rfl⟩
  · obtain ⟨_, rest, hrest, rfl⟩ := token_eq_ok.mp ht
    by_cases hkind : some t.kind = wanted.kind
    · rw [if_pos hkind] at h
      exact absurd h pure_ne_error
    · rw [if_neg hkind] at h
      obtain ⟨rfl, rfl⟩ := fail_eq_error.mp h
      exact Or.inr ⟨t, rest, hrest, hkind, .unexpected wanted, rfl⟩

/-! ## Readings that stop in time -/

/-- The reading is meant for these rows of words and, if it fails, has stopped where it had to. -/
def Stops (p : Reading α) (L : Set (List Word)) : Prop :=
  ∀ ⦃c e c'⦄, c.Genuine → p c = (.error e, c') → Stopped L c e c'

theorem stops_pure (a : α) (L : Set (List Word)) : Stops (pure a) L :=
  fun _ _ _ _ h => absurd h pure_ne_error

/-- **A token decides what comes next**, or is refused. -/
theorem Stops.token_bind {f : Token → Reading β}
    (hf : ∀ t : Token, t.word.Genuine → t.kind ≠ .unclosed → Stops (f t) {v | t.word :: v ∈ L}
      ∨ ∃ e, e.Blames t ∧ f t = fail e ∧ ∀ v, t.word :: v ∉ L)
    (hne : [] ∉ L) (hclosed : ∀ w v, w :: v ∈ L → w.kind ≠ .unclosed) (hv : Viable L []) :
    Stops (token >>= f) L := by
  intro c e c' hc h
  have hrow : ∀ {t : Token} {l r s : List Word}, l ∈ L → l ++ r = t.word :: s →
      ∃ v, l = t.word :: v ∧ v ++ r = s := by
    intro t l r s hl heq
    cases l with
    | nil => exact absurd hl hne
    | cons w v =>
        obtain ⟨hw, hrest⟩ := List.cons.inj heq
        exact ⟨v, by rw [hw], hrest⟩
  have hbar : ∀ {t : Token}, (∀ v, t.word :: v ∉ L) → Barred L ([] ++ [t.word]) := by
    intro t ht l hl r s heq
    obtain ⟨v, rfl, _⟩ := hrow hl heq
    exact ht v hl
  rcases bind_eq_error.mp h with h | ⟨t, d, ht, h⟩
  · rcases token_error h with ⟨hrest, rfl, rfl⟩ | ⟨t, rest, hrest, hkind, rfl, rfl⟩
    · exact .ended (.nil c) hrest (Or.inr rfl) hv
    · refine .barred (.nil c) hrest .badToken hv (hbar ?_)
      intro v hv
      exact hclosed _ _ hv hkind
  · obtain ⟨hkind, rest, hrest, rfl⟩ := token_eq_ok.mp ht
    have hgenuine : t.word.Genuine := hc t (hrest ▸ List.mem_cons_self)
    have hpasses : c.Passes [t.word] ⟨.after t, rest⟩ :=
      Cursor.passes_singleton.mpr ⟨t, rest, hrest, rfl, rfl⟩
    rcases hf t hgenuine hkind with hstops | ⟨e', hblames, hfail, hno⟩
    · refine (hstops (hpasses.genuine hc) h).behind hpasses ?_
      intro l hl r s heq
      obtain ⟨v, rfl, _⟩ := hrow hl heq
      exact ⟨v, rfl⟩
    · rw [hfail] at h
      obtain ⟨rfl, rfl⟩ := fail_eq_error.mp h
      exact .barred (.nil c) hrest hblames hv (hbar hno)

/-- **A token that has to be there**, and that is looked at further. -/
theorem Stops.expect_bind {wanted : Expectation} {f : Token → Reading β}
    (hf : ∀ t : Token, t.word.Genuine → some t.kind = wanted.kind →
      Stops (f t) {v | t.word :: v ∈ L} ∨ ∃ e, e.Blames t ∧ f t = fail e ∧ ∀ v, t.word :: v ∉ L)
    (hclosed : wanted.kind ≠ some .unclosed)
    (hfirst : ∀ l ∈ L, ∃ w v, l = w :: v ∧ some w.kind = wanted.kind) (hv : Viable L []) :
    Stops (expect wanted >>= f) L := by
  rw [expect, bind_assoc]
  refine Stops.token_bind ?_ ?_ ?_ hv
  · intro t hgenuine _
    by_cases ht : some t.kind = wanted.kind
    · rw [if_pos ht]
      exact hf t hgenuine ht
    · refine Or.inr ⟨_, .unexpected wanted, by rw [if_neg ht, fail_bind], ?_⟩
      intro v hl
      obtain ⟨w, _, hl, hw⟩ := hfirst _ hl
      rw [← (List.cons.inj hl).1] at hw
      exact ht hw
  · intro hl
    obtain ⟨_, _, hl, _⟩ := hfirst _ hl
    exact absurd hl (by simp)
  · intro u v hl hu
    obtain ⟨w, _, hl, hw⟩ := hfirst _ hl
    rw [← (List.cons.inj hl).1, hu] at hw
    exact hclosed hw.symm

/-- **A parenthesis that has to be there.** -/
theorem Stops.parenthesis_bind {wanted : Expectation} {w : Word} (hw : w = .opening ∨ w = .closing)
    (hwanted : wanted.kind = some w.kind) {q : Reading β} (hq : Stops q {v | w :: v ∈ L})
    (hfirst : ∀ l ∈ L, ∃ v, l = w :: v) (hv : Viable L []) :
    Stops (expect wanted >>= fun _ => q) L := by
  refine Stops.expect_bind ?_ ?_ ?_ hv
  · intro t hgenuine ht
    left
    rw [hgenuine.eq_of_kind hw (Option.some.inj (ht.trans hwanted))]
    exact hq
  · rw [hwanted]
    rcases hw with rfl | rfl
    · simp [Word.opening]
    · simp [Word.closing]
  · intro l hl
    obtain ⟨v, hl⟩ := hfirst l hl
    exact ⟨w, v, hl, hwanted.symm⟩

/-- **An atom that has to be there**, and that may be one with which nothing can go on. -/
theorem Stops.atom_bind {wanted : Expectation} (hwanted : wanted.kind = some .atom)
    {f : String → Reading β}
    (hf : ∀ a, Stops (f a) {v | .ofAtom a :: v ∈ L}
      ∨ f a = fail (.unknownForm a) ∧ ∀ v, .ofAtom a :: v ∉ L)
    (hfirst : ∀ l ∈ L, ∃ a v, l = .ofAtom a :: v) (hv : Viable L []) :
    Stops (atom wanted >>= f) L := by
  rw [atom, bind_assoc]
  refine Stops.expect_bind ?_ (by rw [hwanted]; simp) ?_ hv
  · intro t _ ht
    have hword : t.word = .ofAtom t.text := Word.eq_ofAtom (Option.some.inj (ht.trans hwanted))
    rw [hword]
    rcases hf t.text with hstops | ⟨hfail, hno⟩
    · exact Or.inl hstops
    · exact Or.inr ⟨_, .unknownForm, hfail, hno⟩
  · intro l hl
    obtain ⟨a, v, hl⟩ := hfirst l hl
    exact ⟨.ofAtom a, v, hl, hwanted.symm⟩

/-- **A word that has to be there.** -/
theorem Stops.keyword_bind {word : String} {q : Reading β}
    (hq : Stops q {v | .ofAtom word :: v ∈ L}) (hfirst : ∀ l ∈ L, ∃ v, l = .ofAtom word :: v)
    (hv : Viable L []) : Stops (keyword word >>= fun _ => q) L := by
  rw [keyword, bind_assoc]
  refine Stops.atom_bind rfl ?_ ?_ hv
  · intro a
    by_cases ha : a = word
    · left
      rw [if_pos ha, ha]
      exact hq
    · refine Or.inr ⟨by rw [if_neg ha, fail_bind], ?_⟩
      intro v hl
      obtain ⟨_, hl⟩ := hfirst _ hl
      exact ha (Word.ofAtom_inj.mp (List.cons.inj hl).1)
  · intro l hl
    exact ⟨word, hfirst l hl⟩

/-- **One part behind another**, where the words of the first tell where it ends. -/
theorem Stops.bind {p : Reading α} {words : τ → List Word} {meaning : τ → α}
    (hd : Derives p words meaning) (hp : Stops p (Set.range words))
    (hinj : ∀ x y r s, words x ++ r = words y ++ s → x = y ∧ r = s) {f : α → Reading β}
    (hf : ∀ x, Stops (f (meaning x)) {v | words x ++ v ∈ L})
    (hfirst : ∀ l ∈ L, ∃ x, words x <+: l)
    (hnext : ∀ x, ∃ v, (∀ w ∈ v, w.Spelled) ∧ words x ++ v ∈ L) : Stops (p >>= f) L := by
  intro c e c' hc h
  rcases bind_eq_error.mp h with h | ⟨a, d, ha, h⟩
  · refine (hp hc h).front ?_ ?_
    · intro u hu
      obtain ⟨x, rfl⟩ := hu
      exact hnext x
    · intro l hl
      obtain ⟨x, hx⟩ := hfirst l hl
      exact Or.inl ⟨_, ⟨x, rfl⟩, hx⟩
  · obtain ⟨x, rfl, hx⟩ := (hd hc).mp ha
    refine (hf x (hx.genuine hc) h).behind hx ?_
    intro l hl r s heq
    obtain ⟨y, v, rfl⟩ := hfirst l hl
    rw [List.append_assoc] at heq
    obtain ⟨rfl, _⟩ := hinj y x _ _ heq
    exact List.prefix_append _ _

/-! ## Repetition up to a parenthesis -/

/-- A failure where a closing parenthesis had to be. -/
inductive Unclosed (c : Cursor) : ReadError → Cursor → Prop where
  | ended (h : c.rest = []) : Unclosed c .endOfText ⟨.finish, []⟩
  | other {t : Token} {rest : List Token} {e : ReadError} (h : c.rest = t :: rest)
      (hkind : t.kind ≠ .rightParen) (he : e.Blames t) : Unclosed c e ⟨.after t, rest⟩

section Repetition

variable {p : Reading α} {words : τ → List Word} {meaning : τ → α}
  {more : Option Token.Kind → Bool}

/-- Rows of trees that stand one behind the other, up to a closing parenthesis. -/
def closedRows (words : τ → List Word) : Set (List Word) :=
  Set.range fun xs : List τ => xs.flatMap words ++ [.closing]

theorem mem_closedRows {l : List Word} :
    l ∈ closedRows words ↔ l = [.closing] ∨ ∃ x, ∃ l' ∈ closedRows words, l = words x ++ l' := by
  constructor
  · intro h
    obtain ⟨xs, rfl⟩ := h
    cases xs with
    | nil => exact Or.inl rfl
    | cons x xs =>
        refine Or.inr ⟨x, _, ⟨xs, rfl⟩, ?_⟩
        dsimp only
        rw [List.flatMap_cons, List.append_assoc]
  · intro h
    rcases h with rfl | ⟨x, l', ⟨xs, rfl⟩, rfl⟩
    · exact ⟨[], rfl⟩
    · refine ⟨x :: xs, ?_⟩
      dsimp only
      rw [List.flatMap_cons, List.append_assoc]

/-- **A repetition fails in one of its rounds.** -/
theorem repeatWhile_eq_error (hd : Derives p words meaning) (hc : c.Genuine)
    (h : repeatWhile more p c = (.error e, c')) :
    ∃ xs : List τ, ∃ d, c.Passes (xs.flatMap words) d ∧ more d.peek = true
      ∧ p d = (.error e, c') := by
  induction c using repeatWhile.induct more p with
  | case1 c hm e' d he =>
      rw [repeatWhile, if_pos hm, he] at h
      cases h
      exact ⟨[], c, .nil c, hm, he⟩
  | case2 c hm a d ha hlt as' d' has ih =>
      rw [repeatWhile, if_pos hm, ha] at h
      dsimp only at h
      rw [dif_pos hlt, has] at h
      exact absurd (congrArg Prod.fst h) (by simp)
  | case3 c hm a d ha hlt e' d' he ih =>
      rw [repeatWhile, if_pos hm, ha] at h
      dsimp only at h
      rw [dif_pos hlt, he] at h
      cases h
      obtain ⟨x, _, hx⟩ := (hd hc).mp ha
      obtain ⟨xs, d'', hxs, hmore, herror⟩ := ih (hx.genuine hc) he
      refine ⟨x :: xs, d'', ?_, hmore, herror⟩
      rw [List.flatMap_cons]
      exact hx.append hxs
  | case4 c hm a d ha hlt =>
      rw [repeatWhile, if_pos hm, ha] at h
      dsimp only at h
      rw [dif_neg hlt] at h
      exact absurd (congrArg Prod.fst h) (by simp)
  | case5 c hm =>
      rw [repeatWhile, if_neg hm] at h
      exact absurd (congrArg Prod.fst h) (by simp)

theorem viable_closedRows : Viable (closedRows words) [] :=
  ⟨[closing], by simp [spelled_closing], mem_closedRows.mpr (Or.inl rfl)⟩

/-- Trees begin with a word that asks for them, and a closing parenthesis is none. -/
theorem closing_ne_words (hfirst : ∀ x, ∃ w ws, words x = w :: ws ∧ more (some w.kind) = true)
    (hstop : more (some .rightParen) = false) {x : τ} {r s : List Word} :
    closing :: r ≠ words x ++ s := by
  intro heq
  obtain ⟨w, ws, hwords, hmore⟩ := hfirst x
  rw [hwords] at heq
  rw [← (List.cons.inj heq).1] at hmore
  exact absurd (hmore.symm.trans hstop) (by simp)

/-- Where a repetition has come to its end, a closing parenthesis is all that can follow. -/
theorem Unclosed.stopped (h : Unclosed c e c') (hmore : more c.peek = false)
    (hfirst : ∀ x, ∃ w ws, words x = w :: ws ∧ more (some w.kind) = true) :
    Stopped (closedRows words) c e c' := by
  cases h with
  | ended hrest => exact .ended (.nil c) hrest (Or.inr rfl) viable_closedRows
  | @other t rest e hrest hkind he =>
      refine .barred (.nil c) hrest he viable_closedRows ?_
      intro l hl r s heq
      rcases mem_closedRows.mp hl with rfl | ⟨x, l', _, rfl⟩
      · exact hkind (congrArg Word.kind (List.cons.inj heq).1).symm
      · obtain ⟨w, ws, hwords, hw⟩ := hfirst x
        rw [hwords] at heq
        rw [(List.cons.inj heq).1] at hw
        rw [Cursor.peek, hrest] at hmore
        exact absurd (hw.symm.trans hmore) (by simp)

/-- A row that goes on as some trees do has these trees in front. -/
theorem closedRows_drop (hinj : ∀ x y r s, words x ++ r = words y ++ s → x = y ∧ r = s)
    (hfirst : ∀ x, ∃ w ws, words x = w :: ws ∧ more (some w.kind) = true)
    (hstop : more (some .rightParen) = false) {xs : List τ} {l r s : List Word}
    (hl : l ∈ closedRows words) (h : l ++ r = xs.flatMap words ++ s) :
    ∃ l' ∈ closedRows words, l = xs.flatMap words ++ l' := by
  induction xs generalizing l with
  | nil => exact ⟨l, hl, rfl⟩
  | cons x xs ih =>
      rw [List.flatMap_cons, List.append_assoc] at h
      rcases mem_closedRows.mp hl with rfl | ⟨y, l₁, hl₁, rfl⟩
      · exact absurd h (closing_ne_words hfirst hstop)
      · rw [List.append_assoc] at h
        obtain ⟨rfl, hrest⟩ := hinj _ _ _ _ h
        obtain ⟨l', hl', rfl⟩ := ih hl₁ hrest
        exact ⟨l', hl', by rw [List.flatMap_cons, List.append_assoc]⟩

/-- Behind some trees the same rows can follow as before them. -/
theorem Stopped.behind_trees
    (hinj : ∀ x y r s, words x ++ r = words y ++ s → x = y ∧ r = s)
    (hfirst : ∀ x, ∃ w ws, words x = w :: ws ∧ more (some w.kind) = true)
    (hstop : more (some .rightParen) = false) {xs : List τ} {d : Cursor}
    (hxs : c.Passes (xs.flatMap words) d) (h : Stopped (closedRows words) d e c') :
    Stopped (closedRows words) c e c' := by
  have hrows : {v | xs.flatMap words ++ v ∈ closedRows words} = closedRows words := by
    ext v
    constructor
    · intro hv
      obtain ⟨l', hl', heq⟩ := closedRows_drop hinj hfirst hstop (r := []) hv (List.append_nil _)
      rwa [List.append_cancel_left heq]
    · intro hv
      obtain ⟨ys, rfl⟩ := hv
      refine ⟨xs ++ ys, ?_⟩
      dsimp only
      rw [List.flatMap_append, List.append_assoc]
  rw [← hrows] at h
  refine h.behind hxs ?_
  intro l hl r s heq
  obtain ⟨l', _, rfl⟩ := closedRows_drop hinj hfirst hstop hl heq
  exact List.prefix_append _ _

/-- **Repetition up to a closing parenthesis.** -/
theorem Stops.repeat_bind (hd : Derives p words meaning) (hp : Stops p (Set.range words))
    (hinj : ∀ x y r s, words x ++ r = words y ++ s → x = y ∧ r = s)
    (hfirst : ∀ x, ∃ w ws, words x = w :: ws ∧ more (some w.kind) = true)
    (hstop : more (some .rightParen) = false) {f : List α → Reading β}
    (hf : ∀ as ⦃c e c'⦄, more c.peek = false → f as c = (.error e, c') → Unclosed c e c') :
    Stops (repeatWhile more p >>= f) (closedRows words) := by
  intro c e c' hc h
  rcases bind_eq_error.mp h with h | ⟨as, d, has, h⟩
  · obtain ⟨xs, d, hxs, hmore, h⟩ := repeatWhile_eq_error hd hc h
    refine Stopped.behind_trees hinj hfirst hstop hxs ((hp (hxs.genuine hc) h).front ?_ ?_)
    · intro u hu
      obtain ⟨x, rfl⟩ := hu
      exact ⟨[closing], by simp [spelled_closing],
        mem_closedRows.mpr (Or.inr ⟨x, _, mem_closedRows.mpr (Or.inl rfl), rfl⟩)⟩
    · intro l hl
      rcases mem_closedRows.mp hl with rfl | ⟨x, l', _, rfl⟩
      · refine Or.inr ⟨closing, [], rfl, ?_⟩
        intro hpeek
        rw [hpeek] at hmore
        exact absurd (hmore.symm.trans hstop) (by simp)
      · exact Or.inl ⟨_, ⟨x, rfl⟩, List.prefix_append _ _⟩
  · obtain ⟨xs, rfl, hxs, hmore⟩ := (repeatWhile_eq_ok_iff hd hfirst hc).mp has
    exact Stopped.behind_trees hinj hfirst hstop hxs ((hf _ hmore h).stopped hmore hfirst)

end Repetition

end Reading

end RegisterMachine
