import RegisterMachine.Proofs.Words

/-!
# What readings make of a text

Two things are said of a reading here.

`Takes n p P` holds of it wherever it is started: an answer of `p` satisfies `P`, and at least `n`
tokens were taken for it. Nothing is said about which text leads to an answer.

`Echoes p cs S L cs'` is about one text. Started before `cs`, the reading `p` finds something that
satisfies `S` and stands before `cs'` then, if `L` holds; if `L` does not hold, `p` may fail or find
something, but nothing that satisfies `S`. With `S` being *the same as what was printed*, this is
what has to be known of every part of a printed text, and the two halves go through a sequence of
readings together: the parts before the first one that is not echoed are read as they were printed,
and what is read for that one decides the whole, whatever is made of the text behind it.
-/

namespace RegisterMachine

namespace Cursor

/-- A cursor that stands before a text. -/
def Before (cs : List Char) (c : Cursor) : Prop := c.rest.map Token.word = Token.words cs

/-- A cursor with nothing before it but words that look like their kind. -/
def Sound (c : Cursor) : Prop := ∀ t ∈ c.rest, t.word.Sound

theorem before_ofSource (source : String) : (ofSource source).Before source.toList :=
  Token.map_word_scan source

theorem Before.sound {cs : List Char} {c : Cursor} (h : c.Before cs) : c.Sound := by
  intro t ht
  exact Token.sound_words cs _ (h ▸ List.mem_map_of_mem ht)

theorem Before.peek {cs : List Char} {c : Cursor} (h : c.Before cs) :
    c.peek = (Token.words cs).head?.map Word.kind := by
  rw [← h, List.head?_map, Option.map_map]
  rfl

end Cursor

namespace Reading

variable {α β : Type}

/-! ## Answers of compound readings -/

theorem bind_eq_ok {p : Reading α} {f : α → Reading β} {c c'' : Cursor} {b : β} :
    (p >>= f) c = (.ok b, c'') ↔ ∃ a c', p c = (.ok a, c') ∧ f a c' = (.ok b, c'') := by
  show Reading.bind p f c = _ ↔ _
  unfold Reading.bind
  cases hp : p c with
  | mk r c' =>
      cases r with
      | ok a =>
          refine ⟨?_, ?_⟩
          · intro h; exact ⟨a, c', rfl, h⟩
          · rintro ⟨a', d, h, hf⟩; cases h; exact hf
      | error e =>
          refine ⟨?_, ?_⟩
          · intro h; exact absurd (congrArg Prod.fst h) (by simp)
          · rintro ⟨a', d, h, hf⟩; exact absurd (congrArg Prod.fst h) (by simp)

theorem pure_eq_ok {a b : α} {c c' : Cursor} :
    (pure a : Reading α) c = (.ok b, c') ↔ a = b ∧ c = c' := by
  show (Except.ok a, c) = (Except.ok b, c') ↔ _
  simp

theorem fail_ne_ok {e : ReadError} {a : α} {c c' : Cursor} :
    (fail e : Reading α) c ≠ (.ok a, c') := by
  intro h
  exact absurd (congrArg Prod.fst h) (by simp [fail])

theorem next_eq_ok {c c' : Cursor} {t : Token} :
    next c = (.ok (some t), c') ↔
      t.kind ≠ .unclosed ∧ ∃ rest, c.rest = t :: rest ∧ c' = ⟨.after t, rest⟩ := by
  unfold next Cursor.next
  cases hr : c.rest with
  | nil => simp
  | cons u rest =>
      dsimp only
      by_cases hu : u.kind = .unclosed
      · rw [if_pos hu]
        simp only [Prod.mk.injEq, reduceCtorEq, false_and, false_iff, List.cons.injEq]
        rintro ⟨ht, _, ⟨rfl, _⟩, _⟩
        exact ht hu
      · rw [if_neg hu]
        refine ⟨?_, ?_⟩
        · intro h; cases h; exact ⟨hu, rest, rfl, rfl⟩
        · rintro ⟨_, _, h, rfl⟩; cases h; rfl

theorem token_eq_ok {c c' : Cursor} {t : Token} :
    token c = (.ok t, c') ↔
      t.kind ≠ .unclosed ∧ ∃ rest, c.rest = t :: rest ∧ c' = ⟨.after t, rest⟩ := by
  rw [← next_eq_ok]
  unfold token
  rw [bind_eq_ok]
  refine ⟨?_, ?_⟩
  · rintro ⟨t?, d, hn, h⟩
    cases t? with
    | none => exact absurd h fail_ne_ok
    | some u => obtain ⟨rfl, rfl⟩ := pure_eq_ok.mp h; exact hn
  · intro h; exact ⟨some t, c', h, rfl⟩

theorem expect_eq_ok {e : Expectation} {c c' : Cursor} {t : Token} :
    expect e c = (.ok t, c') ↔ token c = (.ok t, c') ∧ some t.kind = e.kind := by
  unfold expect
  rw [bind_eq_ok]
  refine ⟨?_, ?_⟩
  · rintro ⟨u, d, hu, h⟩
    split at h
    · next hk => obtain ⟨rfl, rfl⟩ := pure_eq_ok.mp h; exact ⟨hu, hk⟩
    · exact absurd h fail_ne_ok
  · rintro ⟨h, hk⟩
    exact ⟨t, c', h, by rw [if_pos hk]; rfl⟩

theorem atom_eq_ok {e : Expectation} {c c' : Cursor} {a : String} :
    atom e c = (.ok a, c') ↔ ∃ t, expect e c = (.ok t, c') ∧ t.text = a := by
  unfold atom
  rw [bind_eq_ok]
  refine ⟨?_, ?_⟩
  · rintro ⟨t, d, ht, h⟩
    obtain ⟨rfl, rfl⟩ := pure_eq_ok.mp h
    exact ⟨t, ht, rfl⟩
  · rintro ⟨t, ht, rfl⟩; exact ⟨t, c', ht, rfl⟩

/-! ## Answers wherever the reading is started -/

/-- From a sound place an answer of `p` is one for which `P` holds, at least `n` tokens were taken
for it, and what is left is sound. -/
def Takes (n : Nat) (p : Reading α) (P : α → Prop) : Prop :=
  ∀ ⦃c a c'⦄, c.Sound → p c = (.ok a, c') →
    P a ∧ c'.rest.length + n ≤ c.rest.length ∧ c'.Sound

theorem Takes.imp {n : Nat} {p : Reading α} {P Q : α → Prop} (hp : Takes n p P)
    (h : ∀ a, P a → Q a) : Takes n p Q := by
  intro c a c' hc hr
  obtain ⟨ha, hlen, hc'⟩ := hp hc hr
  exact ⟨h a ha, hlen, hc'⟩

theorem Takes.pure {P : α → Prop} {a : α} (ha : P a) : Takes 0 (pure a : Reading α) P := by
  intro c b c' hc h
  obtain ⟨rfl, rfl⟩ := pure_eq_ok.mp h
  exact ⟨ha, Nat.le_refl _, hc⟩

theorem Takes.fail {e : ReadError} {P : α → Prop} (n : Nat) : Takes n (fail e : Reading α) P :=
  fun _ _ _ _ h => absurd h fail_ne_ok

theorem Takes.ite {n : Nat} {b : Prop} [Decidable b] {p q : Reading α} {P : α → Prop}
    (hp : Takes n p P) (hq : Takes n q P) : Takes n (if b then p else q) P := by
  split
  · exact hp
  · exact hq

/-- The tokens that two readings take in sequence add up. -/
theorem Takes.bind {m n : Nat} {p : Reading α} {f : α → Reading β} {P : α → Prop} {Q : β → Prop}
    (hp : Takes m p P) (hf : ∀ a, P a → Takes n (f a) Q) : Takes (m + n) (p >>= f) Q := by
  intro c b c'' hc h
  obtain ⟨a, c', ha, hb⟩ := bind_eq_ok.mp h
  obtain ⟨hPa, hlen, hc'⟩ := hp hc ha
  obtain ⟨hQb, hlen', hc''⟩ := hf a hPa hc' hb
  exact ⟨hQb, by omega, hc''⟩

theorem Takes.weaken {m n : Nat} {p : Reading α} {P : α → Prop} (hp : Takes n p P) (h : m ≤ n) :
    Takes m p P := by
  intro c a c' hc hr
  obtain ⟨ha, hlen, hc'⟩ := hp hc hr
  exact ⟨ha, by omega, hc'⟩

theorem takes_token : Takes 1 token (fun t => t.word.Sound) := by
  intro c t c' hc h
  obtain ⟨_, rest, hrest, rfl⟩ := token_eq_ok.mp h
  unfold Cursor.Sound at hc
  rw [hrest] at hc
  refine ⟨hc t List.mem_cons_self, ?_, ?_⟩
  · rw [hrest]; exact Nat.le_refl _
  · intro u hu; exact hc u (List.mem_cons_of_mem _ hu)

theorem takes_expect (e : Expectation) :
    Takes 1 (expect e) (fun t => t.word.Sound ∧ some t.kind = e.kind) := by
  intro c t c' hc h
  obtain ⟨ht, hk⟩ := expect_eq_ok.mp h
  obtain ⟨hs, hlen, hc'⟩ := takes_token hc ht
  exact ⟨⟨hs, hk⟩, hlen, hc'⟩

theorem takes_atom {e : Expectation} (he : e.kind = some .atom) :
    Takes 1 (atom e) Token.IsAtom := by
  intro c a c' hc h
  obtain ⟨t, ht, rfl⟩ := atom_eq_ok.mp h
  obtain ⟨⟨hs, hk⟩, hlen, hc'⟩ := takes_expect e hc ht
  exact ⟨hs (Option.some.inj (hk.trans he)), hlen, hc'⟩

theorem takes_repeatWhile {more : Option Token.Kind → Bool} {p : Reading α} {P : α → Prop}
    (hp : Takes 0 p P) : Takes 0 (repeatWhile more p) (fun as => ∀ a ∈ as, P a) := by
  -- one case for each way a round can end: with an error of its own or of the rounds behind it, with
  -- an answer that took tokens or took none, and without a round at all
  intro c
  induction c using repeatWhile.induct more p with
  | case1 c hm e c' he =>
      intro as d _ h
      rw [repeatWhile, if_pos hm, he] at h
      exact absurd (congrArg Prod.fst h) (by simp)
  | case2 c hm a c' ha hlt as c'' has ih =>
      intro as' d hc h
      rw [repeatWhile, if_pos hm, ha] at h
      dsimp only at h
      rw [dif_pos hlt, has] at h
      cases h
      obtain ⟨hPa, hlen, hc'⟩ := hp hc ha
      obtain ⟨hPas, hlen', hc''⟩ := ih hc' has
      exact ⟨List.forall_mem_cons.mpr ⟨hPa, hPas⟩, by omega, hc''⟩
  | case3 c hm a c' ha hlt e c'' he ih =>
      intro as d _ h
      rw [repeatWhile, if_pos hm, ha] at h
      dsimp only at h
      rw [dif_pos hlt, he] at h
      exact absurd (congrArg Prod.fst h) (by simp)
  | case4 c hm a c' ha hlt =>
      intro as d hc h
      rw [repeatWhile, if_pos hm, ha] at h
      dsimp only at h
      rw [dif_neg hlt] at h
      cases h
      obtain ⟨hPa, hlen, hc'⟩ := hp hc ha
      exact ⟨List.forall_mem_singleton.mpr hPa, hlen, hc'⟩
  | case5 c hm =>
      intro as d hc h
      rw [repeatWhile, if_neg hm] at h
      cases h
      exact ⟨fun a ha => absurd ha (by simp), Nat.le_refl _, hc⟩

/-! ## Answers at one text -/

/-- Before `cs` the reading finds something for which `P` holds, and stands before `cs'` then. -/
def Finds (p : Reading α) (cs : List Char) (P : α → Prop) (cs' : List Char) : Prop :=
  ∀ ⦃c⦄, c.Before cs → ∃ a c', p c = (.ok a, c') ∧ P a ∧ c'.Before cs'

/-- Before `cs` the reading finds something for which `S` holds, exactly if `L`. -/
structure Echoes (p : Reading α) (cs : List Char) (S : α → Prop) (L : Prop) (cs' : List Char) :
    Prop where
  hit : L → Finds p cs S cs'
  miss : ¬L → ∀ ⦃c a c'⦄, c.Before cs → p c = (.ok a, c') → ¬S a

section Sequences

variable {p : Reading α} {f : α → Reading β} {cs cs' cs'' : List Char} {P S : α → Prop}
  {Q T : β → Prop} {L M : Prop}

theorem Finds.pure {a : α} (ha : P a) : Finds (pure a : Reading α) cs P cs := by
  intro c hc
  exact ⟨a, c, rfl, ha, hc⟩

theorem Finds.bind (hp : Finds p cs P cs') (hf : ∀ a, P a → Finds (f a) cs' Q cs'') :
    Finds (p >>= f) cs Q cs'' := by
  intro c hc
  obtain ⟨a, c', ha, hPa, hc'⟩ := hp hc
  obtain ⟨b, c'', hb, hQb, hc''⟩ := hf a hPa hc'
  exact ⟨b, c'', bind_eq_ok.mpr ⟨a, c', ha, hb⟩, hQb, hc''⟩

theorem Finds.imp (hp : Finds p cs P cs') (h : ∀ a, P a → S a) : Finds p cs S cs' := by
  intro c hc
  obtain ⟨a, c', ha, hPa, hc'⟩ := hp hc
  exact ⟨a, c', ha, h a hPa, hc'⟩

/-- A reading has one answer. -/
theorem Finds.answer (hp : Finds p cs P cs') {c c' : Cursor} {a : α} (hc : c.Before cs)
    (h : p c = (.ok a, c')) : P a ∧ c'.Before cs' := by
  obtain ⟨a', d, ha', hPa, hd⟩ := hp hc
  obtain ⟨hae, hde⟩ := Prod.mk.inj (h.symm.trans ha')
  cases hae
  cases hde
  exact ⟨hPa, hd⟩

theorem Finds.echoes (h : Finds p cs S cs') (hL : L) : Echoes p cs S L cs' :=
  ⟨fun _ => h, fun hn => absurd hL hn⟩

/-- What is always found in front leaves it to the rest whether the whole is echoed. -/
theorem Finds.bind_echoes (hp : Finds p cs P cs') (hf : ∀ a, P a → Echoes (f a) cs' T M cs'') :
    Echoes (p >>= f) cs T M cs'' := by
  refine ⟨?_, ?_⟩
  · intro hM
    exact hp.bind fun a ha => (hf a ha).hit hM
  · intro hM c b c'' hc h
    obtain ⟨a, c', ha, hb⟩ := bind_eq_ok.mp h
    obtain ⟨hPa, hc'⟩ := hp.answer hc ha
    exact (hf a hPa).miss hM hc' hb

/-- Something that is built from a part is echoed if the part is. -/
theorem Echoes.map (hp : Echoes p cs S L cs') {g : α → β} (hg : ∀ a, T (g a) ↔ S a) :
    Echoes (p >>= fun a => Pure.pure (g a)) cs T L cs' := by
  refine ⟨?_, ?_⟩
  · intro hL
    exact (hp.hit hL).bind fun a ha => Finds.pure ((hg a).mpr ha)
  · intro hL c b c'' hc h hT
    obtain ⟨a, c', ha, hb⟩ := bind_eq_ok.mp h
    obtain ⟨rfl, rfl⟩ := pure_eq_ok.mp hb
    exact hp.miss hL hc ha ((hg a).mp hT)

/-- A part is echoed still if something is wanted behind it that stands there. -/
theorem Echoes.followed {q : Reading β} (hp : Echoes p cs S L cs')
    (hq : Finds q cs' (fun _ => True) cs'') :
    Echoes (p >>= fun a => q >>= fun _ => Pure.pure a) cs S L cs'' := by
  refine ⟨?_, ?_⟩
  · intro hL
    exact (hp.hit hL).bind fun a ha => hq.bind fun _ _ => Finds.pure ha
  · intro hL c b d hc h
    obtain ⟨a, c', ha, hb⟩ := bind_eq_ok.mp h
    obtain ⟨_, _, _, hb⟩ := bind_eq_ok.mp hb
    obtain ⟨rfl, rfl⟩ := pure_eq_ok.mp hb
    exact hp.miss hL hc ha

theorem Echoes.iff (hp : Echoes p cs S L cs') (h : M ↔ L) : Echoes p cs S M cs' :=
  ⟨fun hM => hp.hit (h.mp hM), fun hM => hp.miss fun hL => hM (h.mpr hL)⟩

/-- Two readings that agree before a text echo it alike. -/
theorem Echoes.of_eq {q : Reading α} (h : ∀ c, Cursor.Before cs c → p c = q c)
    (hq : Echoes q cs S L cs') : Echoes p cs S L cs' := by
  refine ⟨?_, ?_⟩
  · intro hL c hc
    rw [h c hc]
    exact hq.hit hL hc
  · intro hL c a c' hc ha
    rw [h c hc] at ha
    exact hq.miss hL hc ha

/-- What is read does not depend on a blank in front. -/
theorem Echoes.gap {b : Char} (hb : Token.isGap b = true) (hp : Echoes p cs S L cs') :
    Echoes p (b :: cs) S L cs' := by
  have hsame : ∀ c, Cursor.Before (b :: cs) c ↔ Cursor.Before cs c := by
    intro c
    rw [Cursor.Before, Cursor.Before, Token.words_gap hb]
  refine ⟨?_, ?_⟩
  · intro hL c hc
    exact hp.hit hL ((hsame c).mp hc)
  · intro hL c a c' hc
    exact hp.miss hL ((hsame c).mp hc)

end Sequences

/-! ## Single tokens -/

theorem finds_token {cs cs' : List Char} {w : Word}
    (h : Token.words cs = w :: Token.words cs') (hw : w.kind ≠ .unclosed) :
    Finds token cs (fun t => t.word = w) cs' := by
  intro c hc
  unfold Cursor.Before at hc
  rw [h] at hc
  obtain ⟨t, rest, hrest, hword, hwords⟩ := List.map_eq_cons_iff.mp hc
  refine ⟨t, ⟨.after t, rest⟩, ?_, hword, hwords⟩
  exact token_eq_ok.mpr ⟨by rw [← hword] at hw; exact hw, rest, hrest, rfl⟩

theorem finds_expect {cs cs' : List Char} {w : Word} {e : Expectation}
    (h : Token.words cs = w :: Token.words cs') (hw : w.kind ≠ .unclosed)
    (he : e.kind = some w.kind) : Finds (expect e) cs (fun t => t.word = w) cs' := by
  intro c hc
  obtain ⟨t, c', ht, hword, hc'⟩ := finds_token h hw hc
  refine ⟨t, c', expect_eq_ok.mpr ⟨ht, ?_⟩, hword, hc'⟩
  rw [he, ← hword]
  rfl

theorem finds_open {e : Expectation} (he : e.kind = some .leftParen) (cs : List Char) :
    Finds (expect e) ('(' :: cs) (fun _ => True) cs := by
  intro c hc
  obtain ⟨t, c', ht, _, hc'⟩ := finds_expect (Token.words_open cs) (by simp) he hc
  exact ⟨t, c', ht, trivial, hc'⟩

theorem finds_close {e : Expectation} (he : e.kind = some .rightParen) (cs : List Char) :
    Finds (expect e) (')' :: cs) (fun _ => True) cs := by
  intro c hc
  obtain ⟨t, c', ht, _, hc'⟩ := finds_expect (Token.words_close cs) (by simp) he hc
  exact ⟨t, c', ht, trivial, hc'⟩

theorem finds_atom {e : Expectation} (he : e.kind = some .atom) {a : String}
    (ha : Token.IsAtom a) {cs : List Char} (hcs : Token.Stops cs) :
    Finds (atom e) (a.toList ++ cs) (· = a) cs := by
  intro c hc
  obtain ⟨t, c', ht, hword, hc'⟩ := finds_expect (Token.words_atom ha hcs) (by simp) he hc
  exact ⟨a, c', atom_eq_ok.mpr ⟨t, ht, congrArg Word.text hword⟩, rfl, hc'⟩

/-! ## Repetition -/

section Repetition

variable {more : Option Token.Kind → Bool} {p : Reading α} {cs cs' cs'' : List Char}
  {S : α → Prop} {T U : List α → Prop} {L M : Prop}

/-- Where the next token asks for no more, nothing is read. -/
theorem echoes_repeatWhile_nil (hmore : more ((Token.words cs).head?.map Word.kind) = false)
    (hU : U []) : Echoes (repeatWhile more p) cs U True cs := by
  refine Finds.echoes ?_ trivial
  intro c hc
  refine ⟨[], c, ?_, hU, hc⟩
  rw [repeatWhile, hc.peek, hmore]
  rfl

/-- Where the next token asks for more, the first answer of a repetition is one of the reading that
is repeated, and the others are those of a repetition behind it. -/
theorem repeatWhile_eq_ok {c d : Cursor} {as : List α} (hmore : more c.peek = true)
    (h : repeatWhile more p c = (.ok as, d)) :
    ∃ a rest c', p c = (.ok a, c') ∧ as = a :: rest ∧
      (c'.rest.length < c.rest.length → repeatWhile more p c' = (.ok rest, d)) := by
  rw [repeatWhile, if_pos hmore] at h
  split at h
  · exact absurd (congrArg Prod.fst h) (by simp)
  · next a c' ha =>
    split at h
    · split at h
      · next hrest => cases h; exact ⟨a, _, c', ha, rfl, fun _ => hrest⟩
      · exact absurd (congrArg Prod.fst h) (by simp)
    · next hlt => cases h; exact ⟨a, [], _, ha, rfl, fun hlt' => absurd hlt' hlt⟩

/-- A repetition of a reading that always takes something is echoed if its first round is and the
other rounds are. -/
theorem echoes_repeatWhile_cons (hmore : more ((Token.words cs).head?.map Word.kind) = true)
    (htakes : Takes 1 p (fun _ => True)) (hp : Echoes p cs S L cs')
    (hrest : Echoes (repeatWhile more p) cs' T M cs'') (hU : ∀ a as, U (a :: as) ↔ S a ∧ T as) :
    Echoes (repeatWhile more p) cs U (L ∧ M) cs'' := by
  refine ⟨?_, ?_⟩
  · rintro ⟨hL, hM⟩ c hc
    obtain ⟨a, c', ha, hSa, hc'⟩ := hp.hit hL hc
    obtain ⟨as, d, has, hTas, hd⟩ := hrest.hit hM hc'
    obtain ⟨_, hlt, _⟩ := htakes hc.sound ha
    refine ⟨a :: as, d, ?_, (hU a as).mpr ⟨hSa, hTas⟩, hd⟩
    rw [repeatWhile, if_pos (by rw [hc.peek]; exact hmore), ha]
    dsimp only
    rw [dif_pos (Nat.lt_of_succ_le hlt), has]
  · intro hn c bs d hc h hUbs
    obtain ⟨a, as, c', ha, rfl, hrest'⟩ := repeatWhile_eq_ok (by rw [hc.peek]; exact hmore) h
    obtain ⟨_, hlt, _⟩ := htakes hc.sound ha
    obtain ⟨hSa, hTas⟩ := (hU a as).mp hUbs
    by_cases hL : L
    · -- the first round stopped where the text of the others begins
      obtain ⟨_, hc'⟩ := (hp.hit hL).answer hc ha
      exact hrest.miss (fun hM => hn ⟨hL, hM⟩) hc' (hrest' hlt) hTas
    · exact hp.miss hL hc ha hSa

end Repetition

end Reading

end RegisterMachine
