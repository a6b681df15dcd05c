import RegisterMachine.Proofs.Derivation
import RegisterMachine.Proofs.Grammar

/-!
# Reading is deriving

Each reading takes exactly the words that its symbol of the grammar derives and answers what the
derivation means, in both directions: what was read has a derivation, and what has a derivation is
read (`Reading.Derives`). It is shown for single words first, then for repetition, and from there in
the order of the productions.

Two readings say less. An expression that is an operation takes forms for as long as there are any,
so it ends as derived only where no form follows; the body of an instruction is in the same
situation. The closing parenthesis of the instruction settles both.

Tokens are compared by their words. A parenthesis is told by its kind alone, and the kind tells the
text, because all words come from the scanner (`Cursor.Genuine`).
-/

namespace RegisterMachine

namespace Cursor

variable {c c' c'' : Cursor} {w : Word} {ws vs : List Word}

/-- A cursor before words that are written as their kinds are. -/
def Genuine (c : Cursor) : Prop := ∀ t ∈ c.rest, t.word.Genuine

theorem genuine_ofSource (source : String) : (ofSource source).Genuine := by
  intro t ht
  exact Token.genuine_words source.toList _ (before_ofSource source ▸ List.mem_map_of_mem ht)

/-- From one cursor to the other these words are taken. -/
inductive Passes : Cursor → List Word → Cursor → Prop where
  | nil (c : Cursor) : Passes c [] c
  | cons {place : Place} {t : Token} {rest : List Token} {ws : List Word} {c' : Cursor}
      (h : Passes ⟨.after t, rest⟩ ws c') : Passes ⟨place, t :: rest⟩ (t.word :: ws) c'

theorem passes_nil : Passes c [] c' ↔ c = c' := by
  refine ⟨?_, ?_⟩
  · intro h; cases h; rfl
  · intro h; rw [h]; exact .nil c'

theorem passes_singleton :
    Passes c [w] c' ↔ ∃ t rest, c.rest = t :: rest ∧ t.word = w ∧ c' = ⟨.after t, rest⟩ := by
  refine ⟨?_, ?_⟩
  · intro h
    cases h with
    | cons h => exact ⟨_, _, rfl, rfl, (passes_nil.mp h).symm⟩
  · rintro ⟨t, rest, hrest, rfl, rfl⟩
    obtain ⟨place, rest'⟩ := c
    obtain rfl : rest' = t :: rest := hrest
    exact .cons (.nil _)

theorem passes_append : Passes c (ws ++ vs) c'' ↔ ∃ c', Passes c ws c' ∧ Passes c' vs c'' := by
  refine ⟨?_, ?_⟩
  · intro h
    induction ws generalizing c with
    | nil => exact ⟨c, .nil c, h⟩
    | cons w ws ih =>
        cases h with
        | cons h =>
            obtain ⟨c', hfront, hback⟩ := ih h
            exact ⟨c', .cons hfront, hback⟩
  · rintro ⟨c', hfront, hback⟩
    induction hfront with
    | nil => exact hback
    | cons _ ih => exact .cons (ih hback)

theorem passes_cons : Passes c (w :: ws) c'' ↔ ∃ c', Passes c [w] c' ∧ Passes c' ws c'' := by
  rw [← passes_append, List.singleton_append]

theorem Passes.words (h : Passes c ws c') :
    c.rest.map Token.word = ws ++ c'.rest.map Token.word := by
  induction h with
  | nil => rfl
  | cons _ ih => exact congrArg (_ :: ·) ih

theorem Passes.genuine (h : Passes c ws c') (hc : c.Genuine) : c'.Genuine := by
  induction h with
  | nil => exact hc
  | cons _ ih => exact ih fun t ht => hc t (List.mem_cons_of_mem _ ht)

theorem Passes.peek (h : Passes c (w :: ws) c') : c.peek = some w.kind := by
  cases h
  rfl

theorem Passes.shorter (h : Passes c (w :: ws) c') : c'.rest.length < c.rest.length := by
  have hlength := congrArg List.length h.words
  rw [List.length_append, List.length_map, List.length_map, List.length_cons] at hlength
  omega

theorem Passes.append (h : Passes c ws c') (h' : Passes c' vs c'') : Passes c (ws ++ vs) c'' :=
  passes_append.mpr ⟨c', h, h'⟩

/-- Words that stand at the front can be taken. -/
theorem exists_passes (h : c.rest.map Token.word = ws ++ vs) :
    ∃ c', Passes c ws c' ∧ c'.rest.map Token.word = vs := by
  induction ws generalizing c with
  | nil => exact ⟨c, .nil c, h⟩
  | cons w ws ih =>
      obtain ⟨place, rest⟩ := c
      obtain ⟨t, rest', hrest, hword, hwords⟩ := List.map_eq_cons_iff.mp h
      obtain rfl : rest = t :: rest' := hrest
      obtain ⟨c', hpasses, hbehind⟩ := ih (c := ⟨.after t, rest'⟩) hwords
      rw [← hword]
      exact ⟨c', .cons hpasses, hbehind⟩

end Cursor

namespace Reading

open Cursor (Genuine Passes passes_nil passes_cons passes_append passes_singleton)

variable {α β τ : Type} {c c' c'' : Cursor}

/-! ## Readings and their trees -/

theorem answer_eq_ok {p : Reading α} {a : α} : (p c).1 = .ok a ↔ ∃ c', p c = (.ok a, c') :=
  ⟨fun h => ⟨_, Prod.ext h rfl⟩, fun ⟨_, h⟩ => congrArg Prod.fst h⟩

/-- A reading whose answer is not looked at. -/
theorem then_eq_ok {p : Reading α} {q : Reading β} {b : β} :
    (p >>= fun _ => q) c = (.ok b, c'') ↔
      ∃ c', (∃ a, p c = (.ok a, c')) ∧ q c' = (.ok b, c'') := by
  rw [Reading.bind_eq_ok, exists_comm]
  exact exists_congr fun d => exists_and_right

/-- The reading takes the words of a tree and answers what the tree means. -/
def Derives (p : Reading α) (words : τ → List Word) (meaning : τ → α) : Prop :=
  ∀ ⦃c a c'⦄, c.Genuine → (p c = (.ok a, c') ↔ ∃ x, meaning x = a ∧ c.Passes (words x) c')

section Sequences

variable {p : Reading α} {words : τ → List Word} {meaning : τ → α}

theorem Derives.bind_eq_ok (hp : Derives p words meaning) (hc : c.Genuine) {f : α → Reading β}
    {b : β} : (p >>= f) c = (.ok b, c'') ↔
      ∃ x c', c.Passes (words x) c' ∧ f (meaning x) c' = (.ok b, c'') := by
  rw [Reading.bind_eq_ok]
  refine ⟨?_, ?_⟩
  · rintro ⟨a, c', ha, hb⟩
    obtain ⟨x, rfl, hx⟩ := (hp hc).mp ha
    exact ⟨x, c', hx, hb⟩
  · rintro ⟨x, c', hx, hb⟩
    exact ⟨meaning x, c', (hp hc).mpr ⟨x, rfl, hx⟩, hb⟩

/-- Something with one tree below it, where that one is read as derived. -/
theorem map_eq_ok {g : α → β} {b : β}
    (h : ∀ {a}, p c = (.ok a, c') ↔ ∃ x, meaning x = a ∧ c.Passes (words x) c') :
    (p >>= fun a => pure (g a)) c = (.ok b, c') ↔
      ∃ x, g (meaning x) = b ∧ c.Passes (words x) c' := by
  rw [Reading.bind_eq_ok]
  refine ⟨?_, ?_⟩
  · rintro ⟨a, d, ha, hb⟩
    obtain ⟨rfl, rfl⟩ := pure_eq_ok.mp hb
    obtain ⟨x, rfl, hx⟩ := h.mp ha
    exact ⟨x, rfl, hx⟩
  · rintro ⟨x, rfl, hx⟩
    exact ⟨meaning x, c', h.mpr ⟨x, rfl, hx⟩, rfl⟩

theorem Derives.map_eq_ok (hp : Derives p words meaning) (hc : c.Genuine) {g : α → β} {b : β} :
    (p >>= fun a => pure (g a)) c = (.ok b, c') ↔
      ∃ x, g (meaning x) = b ∧ c.Passes (words x) c' :=
  Reading.map_eq_ok (hp hc)

end Sequences

/-! ## Single words -/

theorem token_eq_ok_iff {w : Word} (hw : w.kind ≠ .unclosed) :
    (∃ t, t.word = w ∧ token c = (.ok t, c')) ↔ c.Passes [w] c' := by
  rw [passes_singleton]
  refine ⟨?_, ?_⟩
  · rintro ⟨t, hword, ht⟩
    obtain ⟨_, rest, hrest, hc'⟩ := token_eq_ok.mp ht
    exact ⟨t, rest, hrest, hword, hc'⟩
  · rintro ⟨t, rest, hrest, rfl, hc'⟩
    exact ⟨t, rfl, token_eq_ok.mpr ⟨hw, rest, hrest, hc'⟩⟩

theorem derives_atom {e : Expectation} (he : e.kind = some .atom) :
    Derives (atom e) (fun a => [.ofAtom a]) id := by
  intro c a c' _
  rw [atom_eq_ok]
  simp only [expect_eq_ok, he, id_eq, exists_eq_left]
  rw [← token_eq_ok_iff (by simp [Word.ofAtom])]
  refine exists_congr fun t => ?_
  obtain ⟨kind, text, start, stop⟩ := t
  simp only [Token.word, Word.ofAtom, Word.mk.injEq, Option.some.injEq]
  exact and_assoc.trans and_comm

theorem token_eq_ok_of_peek {w : Word} (hw : w = .opening ∨ w = .closing) (hc : c.Genuine)
    (hpeek : c.peek = some w.kind) : (∃ t, token c = (.ok t, c')) ↔ c.Passes [w] c' := by
  have hkind : w.kind ≠ .unclosed := by
    rcases hw with rfl | rfl
    · simp [Word.opening]
    · simp [Word.closing]
  rw [← token_eq_ok_iff hkind]
  refine ⟨?_, ?_⟩
  · rintro ⟨t, ht⟩
    obtain ⟨_, rest, hrest, _⟩ := token_eq_ok.mp ht
    have hgenuine : t.word.Genuine := hc t (hrest ▸ List.mem_cons_self)
    have hsame : t.word.kind = w.kind := by
      rw [Cursor.peek, hrest] at hpeek
      exact Option.some.inj hpeek
    exact ⟨t, hgenuine.eq_of_kind hw hsame, ht⟩
  · rintro ⟨t, _, ht⟩
    exact ⟨t, ht⟩

theorem token_bind_eq_ok {w : Word} (hw : w = .opening ∨ w = .closing) (hc : c.Genuine)
    (hpeek : c.peek = some w.kind) {q : Reading β} {b : β} :
    (token >>= fun _ => q) c = (.ok b, c'') ↔ ∃ c', c.Passes [w] c' ∧ q c' = (.ok b, c'') := by
  rw [then_eq_ok]
  exact exists_congr fun d => and_congr_left' (token_eq_ok_of_peek hw hc hpeek)

theorem peek_of_expect {e : Expectation} {t : Token} (h : expect e c = (.ok t, c')) :
    c.peek = e.kind := by
  obtain ⟨htoken, hkind⟩ := expect_eq_ok.mp h
  obtain ⟨_, rest, hrest, _⟩ := token_eq_ok.mp htoken
  rw [Cursor.peek, hrest]
  exact hkind

theorem expect_bind_eq_ok {e : Expectation} {w : Word} (hw : w = .opening ∨ w = .closing)
    (he : e.kind = some w.kind) (hc : c.Genuine) {q : Reading β} {b : β} :
    (expect e >>= fun _ => q) c = (.ok b, c'') ↔ ∃ c', c.Passes [w] c' ∧ q c' = (.ok b, c'') := by
  have hexpect (d : Cursor) : (∃ t, expect e c = (.ok t, d)) ↔ c.Passes [w] d := by
    refine ⟨?_, ?_⟩
    · rintro ⟨t, ht⟩
      have hpeek : c.peek = some w.kind := (peek_of_expect ht).trans he
      exact (token_eq_ok_of_peek hw hc hpeek).mp ⟨t, (expect_eq_ok.mp ht).1⟩
    · intro h
      obtain ⟨t, ht⟩ := (token_eq_ok_of_peek hw hc h.peek).mpr h
      obtain ⟨_, rest, hrest, _⟩ := token_eq_ok.mp ht
      have hkind : some t.kind = some w.kind := by
        rw [← h.peek, Cursor.peek, hrest]
        rfl
      exact ⟨t, expect_eq_ok.mpr ⟨ht, hkind.trans he.symm⟩⟩
  rw [then_eq_ok]
  exact exists_congr fun d => and_congr_left' (hexpect d)

theorem keyword_bind_eq_ok {word : String} (hc : c.Genuine) {q : Reading β} {b : β} :
    (keyword word >>= fun _ => q) c = (.ok b, c'') ↔
      ∃ c', c.Passes [.ofAtom word] c' ∧ q c' = (.ok b, c'') := by
  rw [keyword, bind_assoc, (derives_atom rfl).bind_eq_ok hc]
  refine ⟨?_, ?_⟩
  · rintro ⟨a, c', hpasses, hb⟩
    by_cases ha : a = word
    · subst ha
      refine ⟨c', hpasses, ?_⟩
      rw [id_eq, if_pos rfl] at hb
      exact hb
    · rw [id_eq, if_neg ha] at hb
      obtain ⟨_, _, hfail, _⟩ := Reading.bind_eq_ok.mp hb
      exact absurd hfail fail_ne_ok
  · rintro ⟨c', hpasses, hb⟩
    refine ⟨word, c', hpasses, ?_⟩
    rw [id_eq, if_pos rfl]
    exact hb

/-! ## Repetition -/

/-- What is repeated derives a row of trees, up to a word that none of them begins with. -/
theorem repeatWhile_eq_ok_iff {p : Reading α} {words : τ → List Word} {meaning : τ → α}
    {more : Option Token.Kind → Bool} (hp : Derives p words meaning)
    (hfirst : ∀ x, ∃ w ws, words x = w :: ws ∧ more (some w.kind) = true)
    (hc : c.Genuine) {as : List α} :
    repeatWhile more p c = (.ok as, c') ↔
      ∃ xs : List τ, xs.map meaning = as ∧ c.Passes (xs.flatMap words) c' ∧
        more c'.peek = false := by
  refine ⟨?_, ?_⟩
  · intro h
    induction c using repeatWhile.induct more p generalizing as with
    | case1 c hm e d he =>
        rw [repeatWhile, if_pos hm, he] at h
        exact absurd (congrArg Prod.fst h) (by simp)
    | case2 c hm a d ha hlt as' d' has ih =>
        rw [repeatWhile, if_pos hm, ha] at h
        dsimp only at h
        rw [dif_pos hlt, has] at h
        cases h
        obtain ⟨x, rfl, hx⟩ := (hp hc).mp ha
        obtain ⟨xs, rfl, hxs, hend⟩ := ih (hx.genuine hc) has
        refine ⟨x :: xs, rfl, ?_, hend⟩
        rw [List.flatMap_cons]
        exact passes_append.mpr ⟨d, hx, hxs⟩
    | case3 c hm a d ha hlt e d' he ih =>
        rw [repeatWhile, if_pos hm, ha] at h
        dsimp only at h
        rw [dif_pos hlt, he] at h
        exact absurd (congrArg Prod.fst h) (by simp)
    | case4 c hm a d ha hlt =>
        -- every tree takes a word
        obtain ⟨x, rfl, hx⟩ := (hp hc).mp ha
        obtain ⟨w, ws, hwords, _⟩ := hfirst x
        rw [hwords] at hx
        exact absurd hx.shorter hlt
    | case5 c hm =>
        rw [repeatWhile, if_neg hm] at h
        cases h
        exact ⟨[], rfl, .nil _, by simpa using hm⟩
  · rintro ⟨xs, rfl, hxs, hend⟩
    induction xs generalizing c with
    | nil =>
        obtain rfl := passes_nil.mp hxs
        rw [repeatWhile, if_neg (by simp [hend])]
        rfl
    | cons x xs ih =>
        rw [List.flatMap_cons] at hxs
        obtain ⟨d, hx, hxs⟩ := passes_append.mp hxs
        obtain ⟨w, ws, hwords, hmore⟩ := hfirst x
        have ha : p c = (.ok (meaning x), d) := (hp hc).mpr ⟨x, rfl, hx⟩
        rw [hwords] at hx
        rw [repeatWhile, if_pos (by rw [hx.peek]; exact hmore), ha]
        dsimp only
        rw [dif_pos hx.shorter, ih (hx.genuine hc) hxs]
        rfl

/-! ## Forms -/

open RegisterMachine.Derivation

theorem unquote_quoted (s : String) : unquote ("\"" ++ s ++ "\"") = s := by
  apply String.toList_inj.mp
  simp [unquote]

theorem constant_eq_ok {v : Value} (hc : c.Genuine) :
    constant c = (.ok v, c') ↔
      (∃ a, Value.ofAtom a = v ∧ c.Passes [.ofAtom a] c') ∨
        ∃ s, Value.symbol s = v ∧ c.Passes [.ofString s] c' := by
  have hatom (a : String) : (Word.ofAtom a).kind ≠ .unclosed := by simp [Word.ofAtom]
  have hstring (s : String) : (Word.ofString s).kind ≠ .unclosed := by simp [Word.ofString]
  unfold constant
  rw [Reading.bind_eq_ok]
  refine ⟨?_, ?_⟩
  · rintro ⟨t, d, ht, h⟩
    obtain ⟨_, rest, hrest, _⟩ := token_eq_ok.mp ht
    have hgenuine : t.word.Genuine := hc t (hrest ▸ List.mem_cons_self)
    cases hkind : t.kind with
    | atom =>
        rw [hkind] at h
        obtain ⟨rfl, rfl⟩ := pure_eq_ok.mp h
        have hword : t.word = .ofAtom t.text := Word.eq_ofAtom hkind
        exact Or.inl ⟨t.text, rfl, (token_eq_ok_iff (hatom _)).mp ⟨t, hword, ht⟩⟩
    | string =>
        rw [hkind] at h
        obtain ⟨rfl, rfl⟩ := pure_eq_ok.mp h
        obtain ⟨s, hword⟩ := hgenuine.eq_ofString hkind
        have htext : t.text = "\"" ++ s ++ "\"" := congrArg Word.text hword
        rw [htext, unquote_quoted]
        exact Or.inr ⟨s, rfl, (token_eq_ok_iff (hstring s)).mp ⟨t, hword, ht⟩⟩
    | leftParen => rw [hkind] at h; exact absurd h fail_ne_ok
    | rightParen => rw [hkind] at h; exact absurd h fail_ne_ok
    | unclosed => rw [hkind] at h; exact absurd h fail_ne_ok
  · rintro (⟨a, rfl, h⟩ | ⟨s, rfl, h⟩)
    · obtain ⟨t, hword, ht⟩ := (token_eq_ok_iff (hatom a)).mpr h
      obtain ⟨hkind, htext⟩ := Word.mk.inj hword
      refine ⟨t, c', ht, ?_⟩
      rw [hkind, htext]
      rfl
    · obtain ⟨t, hword, ht⟩ := (token_eq_ok_iff (hstring s)).mpr h
      obtain ⟨hkind, htext⟩ := Word.mk.inj hword
      refine ⟨t, c', ht, ?_⟩
      rw [hkind, htext]
      dsimp only
      rw [unquote_quoted]
      rfl

/-- Behind the head of a form stands the argument of a form with that head. -/
theorem argument_eq_ok {head : String} {e : Expr} (hc : c.Genuine) :
    argument head c = (.ok e, c') ↔
      ∃ f : Form, f.head = head ∧ f.meaning = e ∧ c.Passes [f.argument] c' := by
  refine ⟨?_, ?_⟩
  · intro h
    unfold argument at h
    split at h
    · next hhead =>
      subst hhead
      obtain ⟨v, d, hv, h⟩ := Reading.bind_eq_ok.mp h
      obtain ⟨rfl, rfl⟩ := pure_eq_ok.mp h
      rcases (constant_eq_ok hc).mp hv with ⟨a, rfl, ha⟩ | ⟨s, rfl, hs⟩
      · exact ⟨.constAtom a, rfl, rfl, ha⟩
      · exact ⟨.constString s, rfl, rfl, hs⟩
    · split at h
      · next hhead =>
        obtain ⟨a, rfl, ha⟩ := ((derives_atom rfl).map_eq_ok hc).mp h
        exact ⟨.reg a, hhead.symm, rfl, ha⟩
      · split at h
        · next hhead =>
          obtain ⟨a, rfl, ha⟩ := ((derives_atom rfl).map_eq_ok hc).mp h
          exact ⟨.label a, hhead.symm, rfl, ha⟩
        · split at h
          · next hhead =>
            obtain ⟨a, rfl, ha⟩ := ((derives_atom rfl).map_eq_ok hc).mp h
            exact ⟨.op a, hhead.symm, rfl, ha⟩
          · exact absurd h fail_ne_ok
  · rintro ⟨f, rfl, rfl, h⟩
    cases f with
    | constAtom a =>
        exact Reading.bind_eq_ok.mpr ⟨_, c', (constant_eq_ok hc).mpr (Or.inl ⟨a, rfl, h⟩), rfl⟩
    | constString s =>
        exact Reading.bind_eq_ok.mpr ⟨_, c', (constant_eq_ok hc).mpr (Or.inr ⟨s, rfl, h⟩), rfl⟩
    | reg a => exact ((derives_atom rfl).map_eq_ok hc).mpr ⟨a, rfl, h⟩
    | label a => exact ((derives_atom rfl).map_eq_ok hc).mpr ⟨a, rfl, h⟩
    | op a => exact ((derives_atom rfl).map_eq_ok hc).mpr ⟨a, rfl, h⟩

theorem derives_form : Derives form Form.words Form.meaning := by
  intro c e c' hc
  rw [form_eq, expect_bind_eq_ok (Or.inl rfl) rfl hc]
  refine ⟨?_, ?_⟩
  · rintro ⟨c₁, h₁, h⟩
    have hc₁ := h₁.genuine hc
    obtain ⟨head, c₂, h₂, h⟩ := ((derives_atom rfl).bind_eq_ok hc₁).mp h
    have hc₂ := h₂.genuine hc₁
    obtain ⟨_, c₃, hargument, h⟩ := Reading.bind_eq_ok.mp h
    obtain ⟨f, rfl, rfl, h₃⟩ := (argument_eq_ok hc₂).mp hargument
    obtain ⟨c₄, h₄, h⟩ := (expect_bind_eq_ok (Or.inr rfl) rfl (h₃.genuine hc₂)).mp h
    obtain ⟨rfl, rfl⟩ := pure_eq_ok.mp h
    exact ⟨f, rfl, h₁.append (h₂.append (h₃.append h₄))⟩
  · rintro ⟨f, rfl, h⟩
    obtain ⟨c₁, h₁, h⟩ := passes_cons.mp h
    obtain ⟨c₂, h₂, h⟩ := passes_cons.mp h
    obtain ⟨c₃, h₃, h₄⟩ := passes_cons.mp h
    have hc₁ := h₁.genuine hc
    have hc₂ := h₂.genuine hc₁
    refine ⟨c₁, h₁, ((derives_atom rfl).bind_eq_ok hc₁).mpr ⟨f.head, c₂, h₂, ?_⟩⟩
    refine Reading.bind_eq_ok.mpr ⟨_, c₃, (argument_eq_ok hc₂).mpr ⟨f, rfl, rfl, h₃⟩, ?_⟩
    exact (expect_bind_eq_ok (Or.inr rfl) rfl (h₃.genuine hc₂)).mpr ⟨c', h₄, rfl⟩

/-! ## Expressions and instructions -/

/-- The inputs of an operation are the forms behind it, so an expression ends where no form
begins. -/
theorem expression_eq_ok (hc : c.Genuine) (hend : c'.peek ≠ some .leftParen) {e : Expr} :
    expression c = (.ok e, c') ↔
      ∃ x : Expression, x.meaning = e ∧ c.Passes x.words c' := by
  have hfirst (f : Form) : ∃ w ws, f.words = w :: ws ∧
      decide (some w.kind = some Token.Kind.leftParen) = true := ⟨_, _, rfl, rfl⟩
  have hmore : decide (c'.peek = some .leftParen) = false := decide_eq_false hend
  unfold expression
  rw [derives_form.bind_eq_ok hc]
  refine ⟨?_, ?_⟩
  · rintro ⟨f, d, hf, h⟩
    cases f with
    | op name =>
        obtain ⟨_, d', hinputs, h⟩ := Reading.bind_eq_ok.mp h
        obtain ⟨rfl, rfl⟩ := pure_eq_ok.mp h
        obtain ⟨fs, rfl, hfs, _⟩ :=
          (repeatWhile_eq_ok_iff derives_form hfirst (hf.genuine hc)).mp hinputs
        exact ⟨.apply name fs, rfl, hf.append hfs⟩
    | constAtom _ | constString _ | reg _ | label _ =>
        obtain ⟨rfl, rfl⟩ := pure_eq_ok.mp h
        exact ⟨.form _ rfl, rfl, hf⟩
  · rintro ⟨x, rfl, h⟩
    cases x with
    | apply name fs =>
        obtain ⟨d, hf, hfs⟩ := passes_append.mp h
        refine ⟨.op name, d, hf, Reading.bind_eq_ok.mpr ⟨_, c', ?_, rfl⟩⟩
        exact (repeatWhile_eq_ok_iff derives_form hfirst (hf.genuine hc)).mpr ⟨fs, rfl, hfs, hmore⟩
    | form f hf =>
        refine ⟨f, c', h, ?_⟩
        cases f with
        | op name => exact absurd hf (by simp [Form.isOperation])
        | constAtom _ | constString _ | reg _ | label _ => rfl

theorem acting_eq_ok (hc : c.Genuine) (hend : c'.peek ≠ some .leftParen) (v : Acting)
    {i : RegisterMachine.Instruction} :
    body v.text c = (.ok i, c') ↔
      ∃ x : Expression, v.meaning x.meaning = i ∧ c.Passes x.words c' := by
  rw [← map_eq_ok (expression_eq_ok hc hend)]
  cases v <;> exact Iff.rfl

theorem moving_eq_ok (hc : c.Genuine) (v : Moving) {i : RegisterMachine.Instruction} :
    body v.text c = (.ok i, c') ↔
      ∃ reg, v.meaning reg = i ∧ c.Passes [.ofAtom reg] c' := by
  cases v with
  | save => exact (derives_atom rfl).map_eq_ok hc
  | restore => exact (derives_atom rfl).map_eq_ok hc

theorem assign_eq_ok (hc : c.Genuine) (hend : c'.peek ≠ some .leftParen)
    {i : RegisterMachine.Instruction} :
    body "assign" c = (.ok i, c') ↔
      ∃ reg, ∃ x : Expression,
        RegisterMachine.Instruction.assign reg x.meaning = i ∧
          c.Passes (.ofAtom reg :: x.words) c' := by
  show (atom .assignTarget >>= fun r => expression >>= fun e =>
    pure (RegisterMachine.Instruction.assign r e)) c = _ ↔ _
  rw [(derives_atom rfl).bind_eq_ok hc]
  refine exists_congr fun reg => ?_
  refine ⟨?_, ?_⟩
  · rintro ⟨d, hreg, h⟩
    obtain ⟨x, hx, he⟩ := (map_eq_ok (expression_eq_ok (hreg.genuine hc) hend)).mp h
    exact ⟨x, hx, hreg.append he⟩
  · rintro ⟨x, hx, h⟩
    obtain ⟨d, hreg, he⟩ := passes_cons.mp h
    exact ⟨d, hreg, (map_eq_ok (expression_eq_ok (hreg.genuine hc) hend)).mpr ⟨x, hx, he⟩⟩

theorem verb_of_body {verb : String} {i : RegisterMachine.Instruction}
    (h : body verb c = (.ok i, c')) :
    verb = "assign" ∨ (∃ v : Acting, verb = v.text) ∨ ∃ v : Moving, verb = v.text := by
  unfold body at h
  split at h
  · next hv => exact Or.inl hv
  split at h
  · next hv => exact Or.inr (Or.inl ⟨.test, hv⟩)
  split at h
  · next hv => exact Or.inr (Or.inl ⟨.perform, hv⟩)
  split at h
  · next hv => exact Or.inr (Or.inl ⟨.branch, hv⟩)
  split at h
  · next hv =>
    rcases hv with hv | hv
    · exact Or.inr (Or.inl ⟨.goto, hv⟩)
    · exact Or.inr (Or.inl ⟨.goTo, hv⟩)
  split at h
  · next hv => exact Or.inr (Or.inr ⟨.save, hv⟩)
  split at h
  · next hv => exact Or.inr (Or.inr ⟨.restore, hv⟩)
  exact absurd h fail_ne_ok

/-- Behind the first word stand the operands of an instruction that begins with it. -/
theorem body_eq_ok (hc : c.Genuine) (hend : c'.peek ≠ some .leftParen) {verb : String}
    {i : RegisterMachine.Instruction} :
    body verb c = (.ok i, c') ↔
      ∃ x : Derivation.Instruction, x.verb = verb ∧ x.meaning = i ∧ c.Passes x.operands c' := by
  refine ⟨?_, ?_⟩
  · intro h
    rcases verb_of_body h with rfl | ⟨v, rfl⟩ | ⟨v, rfl⟩
    · obtain ⟨reg, x, hx, hpasses⟩ := (assign_eq_ok hc hend).mp h
      exact ⟨.assign reg x, rfl, hx, hpasses⟩
    · obtain ⟨x, hx, hpasses⟩ := (acting_eq_ok hc hend v).mp h
      exact ⟨.act v x, rfl, hx, hpasses⟩
    · obtain ⟨reg, hreg, hpasses⟩ := (moving_eq_ok hc v).mp h
      exact ⟨.move v reg, rfl, hreg, hpasses⟩
  · rintro ⟨x, rfl, rfl, h⟩
    cases x with
    | assign reg x => exact (assign_eq_ok hc hend).mpr ⟨reg, x, rfl, h⟩
    | act v x => exact (acting_eq_ok hc hend v).mpr ⟨x, rfl, h⟩
    | move v reg => exact (moving_eq_ok hc v).mpr ⟨reg, rfl, h⟩

/-- The closing parenthesis is no beginning of a form. -/
theorem derives_instruction :
    Derives instruction (fun i => i.words ++ [.closing]) Derivation.Instruction.meaning := by
  intro c i c' hc
  rw [instruction_eq, (derives_atom rfl).bind_eq_ok hc]
  refine ⟨?_, ?_⟩
  · rintro ⟨verb, c₁, h₁, h⟩
    have hc₁ := h₁.genuine hc
    obtain ⟨j, c₂, hbody, h⟩ := Reading.bind_eq_ok.mp h
    obtain ⟨_, _, hclosing, _⟩ := Reading.bind_eq_ok.mp h
    have hend : c₂.peek ≠ some .leftParen := by
      rw [peek_of_expect hclosing]
      simp [Expectation.kind]
    obtain ⟨x, rfl, rfl, h₂⟩ := (body_eq_ok hc₁ hend).mp hbody
    obtain ⟨c₃, h₃, h⟩ := (expect_bind_eq_ok (Or.inr rfl) rfl (h₂.genuine hc₁)).mp h
    obtain ⟨rfl, rfl⟩ := pure_eq_ok.mp h
    exact ⟨x, rfl, (h₁.append h₂).append h₃⟩
  · rintro ⟨x, rfl, h⟩
    obtain ⟨c₂, h, h₃⟩ := passes_append.mp h
    obtain ⟨c₁, h₁, h₂⟩ := passes_cons.mp h
    have hc₁ := h₁.genuine hc
    have hend : c₂.peek ≠ some .leftParen := by
      rw [h₃.peek]
      simp [Word.closing]
    refine ⟨x.verb, c₁, h₁, Reading.bind_eq_ok.mpr ⟨x.meaning, c₂, ?_, ?_⟩⟩
    · exact (body_eq_ok hc₁ hend).mpr ⟨x, rfl, rfl, h₂⟩
    · exact (expect_bind_eq_ok (Or.inr rfl) rfl (h₂.genuine hc₁)).mpr ⟨c', h₃, rfl⟩

/-! ## Controllers and machines -/

theorem derives_item : Derives item Derivation.Item.words Derivation.Item.meaning := by
  intro c x c' hc
  have hlabel {x : RegisterMachine.Item} :
      (atom .label >>= fun a => pure (RegisterMachine.Item.label a)) c = (.ok x, c') ↔
        ∃ a, RegisterMachine.Item.label a = x ∧ c.Passes [.ofAtom a] c' :=
    (derives_atom rfl).map_eq_ok hc
  have hinstruction {x : RegisterMachine.Item} (hpeek : c.peek = some .leftParen) :
      (token >>= fun _ => instruction >>= fun i => pure (RegisterMachine.Item.instruction i)) c =
        (.ok x, c') ↔ ∃ i : Derivation.Instruction, RegisterMachine.Item.instruction i.meaning = x ∧
          c.Passes (.opening :: (i.words ++ [.closing])) c' := by
    rw [token_bind_eq_ok (Or.inl rfl) hc hpeek]
    refine ⟨?_, ?_⟩
    · rintro ⟨d, hopening, h⟩
      obtain ⟨i, hi, h⟩ := (derives_instruction.map_eq_ok (hopening.genuine hc)).mp h
      exact ⟨i, hi, hopening.append h⟩
    · rintro ⟨i, hi, h⟩
      obtain ⟨d, hopening, h⟩ := passes_cons.mp h
      exact ⟨d, hopening, (derives_instruction.map_eq_ok (hopening.genuine hc)).mpr ⟨i, hi, h⟩⟩
  refine ⟨?_, ?_⟩
  · intro h
    unfold item at h
    split at h
    · obtain ⟨a, hx, ha⟩ := hlabel.mp h
      exact ⟨.label a, hx, ha⟩
    · next hpeek =>
      obtain ⟨i, hx, hi⟩ := (hinstruction hpeek).mp h
      exact ⟨.instruction i, hx, hi⟩
    · obtain ⟨_, _, _, h⟩ := Reading.bind_eq_ok.mp h
      exact absurd h fail_ne_ok
    · exact absurd h fail_ne_ok
  · rintro ⟨y, rfl, h⟩
    unfold item
    cases y with
    | label a =>
        rw [h.peek]
        exact hlabel.mpr ⟨a, rfl, h⟩
    | instruction i =>
        rw [h.peek]
        exact (hinstruction h.peek).mpr ⟨i, rfl, h⟩

/-- A listing goes on to its closing parenthesis. -/
theorem derives_listing {e : Expectation} (he : e.kind = some .leftParen) {head : String}
    {p : Reading α} {words : τ → List Word} {meaning : τ → α} (hp : Derives p words meaning)
    (hfirst : ∀ x, ∃ w ws, words x = w :: ws ∧ w.kind ≠ .rightParen) :
    Derives (do
        let _ ← expect e
        keyword head
        let as ← repeatWhile (· ≠ some .rightParen) p
        let _ ← token
        pure as)
      (fun xs => listing head (xs.flatMap words)) (List.map meaning) := by
  intro c as c' hc
  have hmore (x : τ) : ∃ w ws, words x = w :: ws ∧
      decide (some w.kind ≠ some Token.Kind.rightParen) = true := by
    obtain ⟨w, ws, hwords, hw⟩ := hfirst x
    exact ⟨w, ws, hwords, by simpa using hw⟩
  rw [expect_bind_eq_ok (Or.inl rfl) he hc]
  refine ⟨?_, ?_⟩
  · rintro ⟨c₁, h₁, h⟩
    have hc₁ := h₁.genuine hc
    obtain ⟨c₂, h₂, h⟩ := (keyword_bind_eq_ok hc₁).mp h
    have hc₂ := h₂.genuine hc₁
    obtain ⟨_, c₃, hrepeat, h⟩ := Reading.bind_eq_ok.mp h
    obtain ⟨xs, rfl, h₃, hend⟩ := (repeatWhile_eq_ok_iff hp hmore hc₂).mp hrepeat
    have hpeek : c₃.peek = some .rightParen := by simpa using hend
    obtain ⟨c₄, h₄, h⟩ := (token_bind_eq_ok (Or.inr rfl) (h₃.genuine hc₂) hpeek).mp h
    obtain ⟨rfl, rfl⟩ := pure_eq_ok.mp h
    exact ⟨xs, rfl, h₁.append (h₂.append (h₃.append h₄))⟩
  · rintro ⟨xs, rfl, h⟩
    obtain ⟨c₁, h₁, h⟩ := passes_cons.mp h
    obtain ⟨c₂, h₂, h⟩ := passes_cons.mp h
    obtain ⟨c₃, h₃, h₄⟩ := passes_append.mp h
    have hc₁ := h₁.genuine hc
    have hc₂ := h₂.genuine hc₁
    have hend : decide (c₃.peek ≠ some .rightParen) = false := by
      rw [h₄.peek]
      rfl
    refine ⟨c₁, h₁, (keyword_bind_eq_ok hc₁).mpr ⟨c₂, h₂, ?_⟩⟩
    refine Reading.bind_eq_ok.mpr ⟨xs.map meaning, c₃, ?_, ?_⟩
    · exact (repeatWhile_eq_ok_iff hp hmore hc₂).mpr ⟨xs, rfl, h₃, hend⟩
    · exact (token_bind_eq_ok (Or.inr rfl) (h₃.genuine hc₂) h₄.peek).mpr ⟨c', h₄, rfl⟩

theorem derives_registers : Derives registers Machine.registersWords id := by
  have h : Derives registers Machine.registersWords (List.map id) :=
    derives_listing rfl (derives_atom rfl) fun a => ⟨_, _, rfl, by simp [Word.ofAtom]⟩
  rwa [List.map_id_fun] at h

theorem derives_controller :
    Derives controller Machine.controllerWords (List.map Derivation.Item.meaning) := by
  refine derives_listing rfl derives_item fun x => ?_
  cases x with
  | label a => exact ⟨_, _, rfl, by simp [Word.ofAtom]⟩
  | instruction i => exact ⟨_, _, rfl, by simp [Word.opening]⟩

theorem expectEnd_eq_ok : expectEnd c = (.ok (), c') ↔ c.rest = [] ∧ c' = ⟨.finish, []⟩ := by
  unfold expectEnd
  rw [Reading.bind_eq_ok]
  refine ⟨?_, ?_⟩
  · rintro ⟨t?, d, hnext, h⟩
    cases t? with
    | some t => exact absurd h fail_ne_ok
    | none =>
        obtain ⟨_, rfl⟩ := pure_eq_ok.mp h
        unfold next Cursor.next at hnext
        cases hrest : c.rest with
        | nil =>
            rw [hrest] at hnext
            exact ⟨rfl, (congrArg Prod.snd hnext).symm⟩
        | cons t rest =>
            rw [hrest] at hnext
            dsimp only at hnext
            split at hnext
            · exact absurd (congrArg Prod.fst hnext) (by simp)
            · exact absurd (congrArg Prod.fst hnext) (by simp)
  · rintro ⟨hrest, rfl⟩
    refine ⟨none, ⟨.finish, []⟩, ?_, rfl⟩
    unfold next Cursor.next
    rw [hrest]

/-- What is read of a machine description in front of the end of the text. -/
def machine : Reading Description := do
  let _ ← expect .machineOpening
  keyword "machine"
  let names ← registers
  let items ← controller
  let _ ← expect .machineClosing
  pure ⟨names, items⟩

theorem description_eq :
    description = machine >>= fun d => expectEnd >>= fun _ => pure d := by
  unfold description machine
  simp only [bind_assoc]
  rfl

theorem derives_machine : Derives machine Machine.words Machine.meaning := by
  intro c d c' hc
  unfold machine
  rw [expect_bind_eq_ok (Or.inl rfl) rfl hc]
  refine ⟨?_, ?_⟩
  · rintro ⟨c₁, h₁, h⟩
    have hc₁ := h₁.genuine hc
    obtain ⟨c₂, h₂, h⟩ := (keyword_bind_eq_ok hc₁).mp h
    have hc₂ := h₂.genuine hc₁
    obtain ⟨names, c₃, h₃, h⟩ := (derives_registers.bind_eq_ok hc₂).mp h
    have hc₃ := h₃.genuine hc₂
    obtain ⟨items, c₄, h₄, h⟩ := (derives_controller.bind_eq_ok hc₃).mp h
    obtain ⟨c₅, h₅, h⟩ := (expect_bind_eq_ok (Or.inr rfl) rfl (h₄.genuine hc₃)).mp h
    obtain ⟨rfl, rfl⟩ := pure_eq_ok.mp h
    exact ⟨⟨names, items⟩, rfl, h₁.append (h₂.append ((h₃.append h₄).append h₅))⟩
  · rintro ⟨m, rfl, h⟩
    obtain ⟨c₁, h₁, h⟩ := passes_cons.mp h
    obtain ⟨c₂, h₂, h⟩ := passes_cons.mp h
    obtain ⟨c₄, h, h₅⟩ := passes_append.mp h
    obtain ⟨c₃, h₃, h₄⟩ := passes_append.mp h
    have hc₁ := h₁.genuine hc
    have hc₂ := h₂.genuine hc₁
    have hc₃ := h₃.genuine hc₂
    refine ⟨c₁, h₁, (keyword_bind_eq_ok hc₁).mpr ⟨c₂, h₂, ?_⟩⟩
    refine (derives_registers.bind_eq_ok hc₂).mpr ⟨m.registers, c₃, h₃, ?_⟩
    refine (derives_controller.bind_eq_ok hc₃).mpr ⟨m.items, c₄, h₄, ?_⟩
    exact (expect_bind_eq_ok (Or.inr rfl) rfl (h₄.genuine hc₃)).mpr ⟨c', h₅, rfl⟩

/-- A machine is all there is. -/
theorem description_eq_ok (hc : c.Genuine) {d : Description} :
    (description c).1 = .ok d ↔
      ∃ m : Machine, m.meaning = d ∧ c.rest.map Token.word = m.words := by
  rw [answer_eq_ok, description_eq]
  refine ⟨?_, ?_⟩
  · rintro ⟨c', h⟩
    obtain ⟨m, c₁, h₁, h⟩ := (derives_machine.bind_eq_ok hc).mp h
    obtain ⟨_, _, hend, h⟩ := Reading.bind_eq_ok.mp h
    obtain ⟨hnil, _⟩ := expectEnd_eq_ok.mp hend
    obtain ⟨rfl, _⟩ := pure_eq_ok.mp h
    have hwords := h₁.words
    rw [hnil, List.map_nil, List.append_nil] at hwords
    exact ⟨m, rfl, hwords⟩
  · rintro ⟨m, rfl, h⟩
    obtain ⟨c₁, h₁, hnil⟩ := Cursor.exists_passes (h.trans (List.append_nil _).symm)
    refine ⟨⟨.finish, []⟩, (derives_machine.bind_eq_ok hc).mpr ⟨m, c₁, h₁, ?_⟩⟩
    exact Reading.bind_eq_ok.mpr
      ⟨(), _, expectEnd_eq_ok.mpr ⟨List.map_eq_nil_iff.mp hnil, rfl⟩, rfl⟩

/-- Every item has a word to begin with. -/
theorem more_item (x : Derivation.Item) :
    ∃ w ws, x.words = w :: ws ∧ (some w.kind).isSome = true := by
  cases x with
  | label a => exact ⟨_, _, rfl, rfl⟩
  | instruction i => exact ⟨_, _, rfl, rfl⟩

theorem items_eq_ok (hc : c.Genuine) {xs : List RegisterMachine.Item} :
    (items c).1 = .ok xs ↔ ∃ ys : List Derivation.Item, ys.map Derivation.Item.meaning = xs ∧
      c.rest.map Token.word = ys.flatMap Derivation.Item.words := by
  rw [answer_eq_ok]
  unfold items
  simp only [repeatWhile_eq_ok_iff derives_item more_item hc]
  refine ⟨?_, ?_⟩
  · rintro ⟨c', ys, hys, h, hend⟩
    have hnil : c'.rest = [] := by
      simpa [Cursor.peek] using hend
    have hwords := h.words
    rw [hnil, List.map_nil, List.append_nil] at hwords
    exact ⟨ys, hys, hwords⟩
  · rintro ⟨ys, hys, h⟩
    obtain ⟨c', h, hnil⟩ := Cursor.exists_passes (h.trans (List.append_nil _).symm)
    refine ⟨c', ys, hys, h, ?_⟩
    rw [Cursor.peek, List.map_eq_nil_iff.mp hnil]
    rfl

end Reading

/-! ## Source text -/

namespace Derivation

theorem ofSource_eq_ok {source : String} {d : Description} :
    Description.ofSource source = .ok d ↔
      ∃ m : Machine, m.meaning = d ∧ (Token.scan source).map Token.word = m.words :=
  Reading.description_eq_ok (Cursor.genuine_ofSource source)

theorem listOfSource_eq_ok {source : String} {xs : List RegisterMachine.Item} :
    RegisterMachine.Item.listOfSource source = .ok xs ↔ ∃ ys : List Item, ys.map Item.meaning = xs ∧
      (Token.scan source).map Token.word = ys.flatMap Item.words :=
  Reading.items_eq_ok (Cursor.genuine_ofSource source)

/-- **What is read is what the grammar derives.** A source text is read as a description exactly if
all its strings end and the grammar derives its words as a machine, in the only way there is, that
means this description; and in the same way as the lines of a controller. -/
theorem read_iff_derived (source : String) :
    (∀ d, Description.ofSource source = .ok d ↔
      (∀ t ∈ Token.scan source, t.kind ≠ .unclosed) ∧
        ∃ m : Machine, m.words = (Token.scan source).map Token.word ∧ m.meaning = d ∧
          ∀ m' : Machine, m'.words = (Token.scan source).map Token.word → m' = m) ∧
    ∀ xs, RegisterMachine.Item.listOfSource source = .ok xs ↔
      (∀ t ∈ Token.scan source, t.kind ≠ .unclosed) ∧
        ∃ ys : List Item, ys.flatMap Item.words = (Token.scan source).map Token.word ∧
          ys.map Item.meaning = xs ∧
          ∀ ys' : List Item, ys'.flatMap Item.words = (Token.scan source).map Token.word →
            ys' = ys := by
  refine ⟨fun d => ⟨?_, ?_⟩, fun xs => ⟨?_, ?_⟩⟩
  · intro h
    obtain ⟨m, hm, hwords⟩ := ofSource_eq_ok.mp h
    refine ⟨?_, m, hwords.symm, hm, ?_⟩
    · intro t ht
      exact Machine.kind_of_mem_words (hwords ▸ List.mem_map_of_mem ht)
    · intro m' hm'
      exact Machine.words_injective (hm'.trans hwords)
  · rintro ⟨_, m, hwords, hm, _⟩
    exact ofSource_eq_ok.mpr ⟨m, hm, hwords.symm⟩
  · intro h
    obtain ⟨ys, hys, hwords⟩ := listOfSource_eq_ok.mp h
    refine ⟨?_, ys, hwords.symm, hys, ?_⟩
    · intro t ht
      exact Item.kind_of_mem_flatMap_words (hwords ▸ List.mem_map_of_mem ht)
    · intro ys' hys'
      exact Item.flatMap_words_injective (hys'.trans hwords)
  · rintro ⟨_, ys, hwords, hys, _⟩
    exact listOfSource_eq_ok.mpr ⟨ys, hys, hwords.symm⟩

end Derivation

end RegisterMachine
