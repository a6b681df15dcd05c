import RegisterMachine.Proofs.InTime
import RegisterMachine.Proofs.Success

/-!
# How a text is refused

A text is read to its end or refused. When it is refused, the tokens were taken from the front, each
once and in order, and reading went no further than it had to: a text that ended too soon is the
beginning of one that is accepted, and of a token that was not accepted it is certain that nothing
behind it could have made the text acceptable (`Reading.refused_in_time`).

Texts are compared by their words: those that are accepted are the words of trees, as far as they can
be written (`Recognizes.accepts_iff`). Of what is refused only one half of `Barred` is left here. A
machine is the whole of a text, and so are items, so no more is wanted than that no row begins with
the tokens that were taken; that these begin with a row happens, as behind a machine that is followed
by something else.
-/

namespace RegisterMachine

theorem Cursor.Passes.exists_tokens {c c' : Cursor} {ws : List Word} (h : c.Passes ws c') :
    ∃ ts, c.rest = ts ++ c'.rest ∧ ts.map Token.word = ws := by
  induction h with
  | nil c => exact ⟨[], rfl, rfl⟩
  | @cons place t rest ws c' _ ih =>
      obtain ⟨ts, hrest, hwords⟩ := ih
      exact ⟨t :: ts, congrArg _ hrest, congrArg _ hwords⟩

theorem Barred.not_mem {L : Set (List Word)} {ws : List Word} (h : Barred L ws) (s : List Word) :
    ws ++ s ∉ L := by
  intro hmem
  exact h _ hmem [] s (List.append_nil _)

namespace Reading

open RegisterMachine.Derivation

variable {α τ : Type} {p : Reading α} {words : τ → List Word} {meaning : τ → α}
  {c c' d : Cursor} {e : ReadError} {source : String} {ws : List Word}

/-- There is a text of these words that is accepted. -/
def Accepts (p : Reading α) (ws : List Word) : Prop :=
  ∃ source a, (p (.ofSource source)).1 = .ok a ∧ (Token.scan source).map Token.word = ws

/-- How a reading refuses a text with this error, and where. -/
structure Refuses (p : Reading α) (source : String) (e : ReadError) (c : Cursor) : Prop where
  /-- The tokens in front were taken one by one, and perhaps the end of the text behind them. -/
  taken : ∃ before d, Token.scan source = before ++ c.rest ∧
    (Cursor.ofSource source).Passes (before.map Token.word) d ∧ d.rest = c.rest ∧
      (c = d ∨ c = ⟨.finish, []⟩)
  /-- The text ended too soon exactly if all of it was taken and it can be completed. -/
  ended : e = .endOfText ↔ c.rest = [] ∧ (∀ t ∈ Token.scan source, t.kind ≠ .unclosed) ∧
    ¬ Accepts p ((Token.scan source).map Token.word) ∧
      ∃ more, Accepts p ((Token.scan source).map Token.word ++ more)
  /-- Otherwise the token that was taken last is shown, and is the first that cannot stand. -/
  stopped : e ≠ .endOfText → ∃ before t, Token.scan source = before ++ t :: c.rest ∧
    c.current = some t ∧ e.Blames t ∧ (∃ more, Accepts p (before.map Token.word ++ more)) ∧
      ∀ more, ¬ Accepts p (before.map Token.word ++ t.word :: more)

/-! ## Texts and rows of words -/

/-- The reading accepts the words of these trees, with the end of the text behind them. -/
structure Recognizes (p : Reading α) (words : τ → List Word) (meaning : τ → α) : Prop where
  answer : ∀ ⦃c a⦄, c.Genuine →
    ((p c).1 = .ok a ↔ ∃ x, meaning x = a ∧ c.rest.map Token.word = words x)
  closed : ∀ x, ∀ w ∈ words x, w.kind ≠ .unclosed

theorem recognizes_description :
    Recognizes description Machine.words Machine.meaning where
  answer _ _ hc := description_eq_ok hc
  closed _ _ hw := Machine.kind_of_mem_words hw

theorem recognizes_items :
    Recognizes items (List.flatMap Derivation.Item.words) (List.map Derivation.Item.meaning) where
  answer _ _ hc := items_eq_ok hc
  closed _ _ hw := Item.kind_of_mem_flatMap_words hw

section Recognizes

variable (hp : Recognizes p words meaning)

include hp

/-- Words of a text that are words of a tree can be written. -/
theorem Recognizes.spelled {x : τ} {w : Word} (hw : w ∈ (Token.scan source).map Token.word)
    (hx : w ∈ words x) : w.Spelled := by
  rw [Token.map_word_scan] at hw
  exact Token.spelled_of_kind_ne source.toList w hw (hp.closed x w hx)

/-- **What is accepted** are the words of trees that can be written. -/
theorem Recognizes.accepts_iff :
    Accepts p ws ↔ (∀ w ∈ ws, w.Spelled) ∧ ws ∈ Set.range words := by
  constructor
  · intro h
    obtain ⟨source, a, ha, rfl⟩ := h
    obtain ⟨x, _, hx⟩ := (hp.answer (Cursor.genuine_ofSource source)).mp ha
    refine ⟨?_, x, hx.symm⟩
    intro w hw
    have hmem : w ∈ words x := hx ▸ hw
    exact hp.spelled hw hmem
  · intro h
    obtain ⟨hspelled, x, rfl⟩ := h
    obtain ⟨cs, hcs⟩ := Token.exists_words hspelled
    have hwords : (Token.scan (String.ofList cs)).map Token.word = words x := by
      rw [Token.map_word_scan, String.toList_ofList, hcs]
    exact ⟨_, _, (hp.answer (Cursor.genuine_ofSource _)).mpr ⟨x, rfl, hwords⟩, hwords⟩

/-- What can be completed to a row is the beginning of an accepted text. -/
theorem Recognizes.exists_accepts (h : (Cursor.ofSource source).Passes ws d)
    (hv : Viable (Set.range words) ws) : ∃ more, Accepts p (ws ++ more) := by
  obtain ⟨more, hmore, x, hx⟩ := hv
  have hws : ∀ w ∈ ws, w.Spelled := by
    intro w hw
    have hscan : w ∈ (Token.scan source).map Token.word := h.words ▸ List.mem_append_left _ hw
    have hmem : w ∈ words x := hx ▸ List.mem_append_left _ hw
    exact hp.spelled hscan hmem
  exact ⟨more, hp.accepts_iff.mpr ⟨List.forall_mem_append.mpr ⟨hws, hmore⟩, x, hx⟩⟩

theorem Recognizes.refuses_ended (hrefused : p (.ofSource source) = (.error e, c'))
    (h : (Cursor.ofSource source).Passes ws d) (hend : d.rest = [])
    (hc : c' = d ∨ c' = ⟨.finish, []⟩) (hv : Viable (Set.range words) ws) :
    Refuses p source .endOfText c' := by
  obtain ⟨before, hscan, rfl⟩ := h.exists_tokens
  have hrest : c'.rest = [] := by
    rcases hc with rfl | rfl
    · exact hend
    · rfl
  obtain rfl : Token.scan source = before := by
    rw [hend, List.append_nil] at hscan
    exact hscan
  have hkind : ∀ t ∈ Token.scan source, t.kind ≠ .unclosed := by
    intro t ht
    obtain ⟨more, _, x, hx⟩ := hv
    exact hp.closed x t.word (hx ▸ List.mem_append_left _ (List.mem_map_of_mem ht))
  have hnot : ¬ Accepts p ((Token.scan source).map Token.word) := by
    intro haccepts
    obtain ⟨_, x, hx⟩ := hp.accepts_iff.mp haccepts
    have hok := (hp.answer (Cursor.genuine_ofSource source)).mpr ⟨x, rfl, hx.symm⟩
    rw [hrefused] at hok
    exact absurd hok (by simp)
  refine ⟨⟨_, d, ?_, h, hend.trans hrest.symm, hc⟩, ?_, fun hne => absurd rfl hne⟩
  · rw [hrest, List.append_nil]
  · exact iff_of_true rfl ⟨hrest, hkind, hnot, hp.exists_accepts h hv⟩

theorem Recognizes.refuses_barred {t : Token} {rest : List Token}
    (h : (Cursor.ofSource source).Passes ws d) (hrest : d.rest = t :: rest) (he : e.Blames t)
    (hv : Viable (Set.range words) ws) (hb : ∀ s, ws ++ t.word :: s ∉ Set.range words) :
    Refuses p source e ⟨.after t, rest⟩ := by
  obtain ⟨before, hscan, rfl⟩ := h.exists_tokens
  rw [hrest] at hscan
  have hpasses : (Cursor.ofSource source).Passes ((before ++ [t]).map Token.word)
      ⟨.after t, rest⟩ := by
    rw [List.map_append]
    exact h.append (Cursor.passes_singleton.mpr ⟨t, rest, hrest, rfl, rfl⟩)
  have hno : ∀ more, ¬ Accepts p (before.map Token.word ++ t.word :: more) :=
    fun more haccepts => hb more (hp.accepts_iff.mp haccepts).2
  have hne : e ≠ .endOfText := by
    intro heq
    rw [heq] at he
    cases he
  refine ⟨⟨before ++ [t], _, ?_, hpasses, rfl, Or.inl rfl⟩, iff_of_false hne ?_, fun _ => ?_⟩
  · exact hscan.trans (List.append_cons ..)
  · intro h
    obtain ⟨hend, _, _, more, hmore⟩ := h
    refine hno more ?_
    have hall : Token.scan source = before ++ [t] := hscan.trans (congrArg (before ++ t :: ·) hend)
    rwa [hall, List.map_append, List.append_assoc] at hmore
  · exact ⟨before, t, hscan, rfl, he, hp.exists_accepts h hv, hno⟩

end Recognizes

/-! ## Descriptions -/

/-- Behind a machine any token is one too many. -/
theorem expectEnd_error {a : α}
    (h : (expectEnd >>= fun _ => (pure a : Reading α)) c = (.error e, c')) :
    ∃ t rest, c.rest = t :: rest ∧ e.Blames t ∧ c' = ⟨.after t, rest⟩ := by
  rcases bind_eq_error.mp h with h | ⟨_, _, _, h⟩
  · rcases bind_eq_error.mp h with h | ⟨t, d, ht, h⟩
    · obtain ⟨t, rest, hrest, _, rfl, rfl⟩ := next_error h
      exact ⟨t, rest, hrest, .badToken, rfl⟩
    · cases t with
      | none => exact absurd h pure_ne_error
      | some t =>
          obtain ⟨_, rest, hrest, rfl⟩ := next_eq_ok.mp ht
          obtain ⟨rfl, rfl⟩ := fail_eq_error.mp h
          exact ⟨t, rest, hrest, .unexpected .nothingMore, rfl⟩
  · exact absurd h pure_ne_error

theorem refuses_description (h : description (.ofSource source) = (.error e, c)) :
    Refuses description source e c := by
  have hc := Cursor.genuine_ofSource source
  have herror := h
  rw [description_eq] at h
  rcases bind_eq_error.mp h with h | ⟨desc, d, hd, h⟩
  · cases stops_machine hc h with
    | ended hpasses hend hc hv =>
        exact recognizes_description.refuses_ended herror hpasses hend hc hv
    | barred hpasses hrest he hv hb =>
        refine recognizes_description.refuses_barred hpasses hrest he hv ?_
        intro s
        rw [List.append_cons]
        exact hb.not_mem s
  · obtain ⟨m, _, hm⟩ := (derives_machine hc).mp hd
    obtain ⟨t, rest, hrest, he, rfl⟩ := expectEnd_error h
    refine recognizes_description.refuses_barred hm hrest he ⟨[], by simp, m, by simp⟩ ?_
    intro s hs
    -- a machine is not the beginning of another
    obtain ⟨m', hm'⟩ := hs
    obtain ⟨_, hnil⟩ := Machine.words_inj ((List.append_nil _).trans hm')
    exact absurd hnil (by simp)

/-! ## Controllers without a machine -/

/-- Behind some trees of a row its other trees stand. -/
theorem exists_flatMap_words (hinj : ∀ x y r s, words x ++ r = words y ++ s → x = y ∧ r = s)
    (hne : ∀ x, words x ≠ []) {xs ys : List τ} {r : List Word}
    (h : xs.flatMap words ++ r = ys.flatMap words) : ∃ zs : List τ, r = zs.flatMap words := by
  induction xs generalizing ys with
  | nil => exact ⟨ys, h⟩
  | cons x xs ih =>
      rw [List.flatMap_cons, List.append_assoc] at h
      cases ys with
      | nil => exact absurd (List.append_eq_nil_iff.mp h).1 (hne x)
      | cons y ys =>
          rw [List.flatMap_cons] at h
          exact ih (hinj _ _ _ _ h).2

theorem refuses_items (h : items (.ofSource source) = (.error e, c)) :
    Refuses items source e c := by
  have hc := Cursor.genuine_ofSource source
  obtain ⟨xs, d, hxs, _, herror⟩ := repeatWhile_eq_error derives_item hc h
  have hviable : ∀ {ws}, Viable (Set.range Derivation.Item.words) ws →
      Viable (Set.range (List.flatMap Derivation.Item.words))
        (xs.flatMap Derivation.Item.words ++ ws) := by
    intro ws hv
    obtain ⟨more, hmore, x, hx⟩ := hv
    refine ⟨more, hmore, xs ++ [x], ?_⟩
    rw [List.flatMap_append, List.flatMap_singleton, hx, List.append_assoc]
  cases stops_item (hxs.genuine hc) herror with
  | ended hpasses hend hc hv =>
      exact recognizes_items.refuses_ended h (hxs.append hpasses) hend hc (hviable hv)
  | @barred ws _ t _ _ hpasses hrest he hv hb =>
      refine recognizes_items.refuses_barred (hxs.append hpasses) hrest he (hviable hv) ?_
      intro s hs
      obtain ⟨ys, hys⟩ := hs
      rw [List.append_assoc] at hys
      have hne (x : Derivation.Item) : x.words ≠ [] := by
        obtain ⟨w, vs, hwords, _⟩ := Item.exists_words x
        simp [hwords]
      obtain ⟨zs, hzs⟩ := exists_flatMap_words (fun _ _ _ _ => Item.words_inj) hne hys.symm
      cases zs with
      | nil => exact absurd hzs (by simp)
      | cons z zs =>
          refine hb _ ⟨z, rfl⟩ (zs.flatMap Derivation.Item.words) s ?_
          rw [List.append_assoc]
          exact hzs.symm

/-! ## Both -/

/--
**Reading stops at the first token behind which nothing can be accepted.**

Take any text that is refused, as a description or as the items of a controller. The tokens in front
were taken one by one and in order, and none behind the cursor. The error is that the text ended
exactly if all of it was taken, every string in it ends, it is not accepted and it can be completed
by further tokens. With any other error the cursor stands behind the token that the error shows; the
tokens before that one can be completed, and with it they cannot.
-/
theorem refused_in_time (source : String) :
    (∀ e c, description (.ofSource source) = (.error e, c) → Refuses description source e c) ∧
      ∀ e c, items (.ofSource source) = (.error e, c) → Refuses items source e c :=
  ⟨fun _ _ h => refuses_description h, fun _ _ h => refuses_items h⟩

theorem refused_in_time_short :
    (∃ e c, description (.ofSource "(machine x") = (.error e, c) ∧
        c.current = some ⟨.atom, "x", 9, 10⟩ ∧ Refuses description "(machine x" e c) ∧
      ∃ e c, items (.ofSource "(save x) (save") = (.error e, c) ∧
        c.current = none ∧ Refuses items "(save x) (save" e c := by
  have hmachine : (description (.ofSource "(machine x")).1.toOption.isNone = true := by
    decide +kernel
  have hitems : (items (.ofSource "(save x) (save")).1.toOption.isNone = true := by
    decide +kernel
  obtain ⟨e, he⟩ := error_of_toOption hmachine
  obtain ⟨f, hf⟩ := error_of_toOption hitems
  have hdescribed := (refused_in_time "(machine x").1 e _ (Prod.ext he rfl)
  have hlisted := (refused_in_time "(save x) (save").2 f _ (Prod.ext hf rfl)
  exact ⟨⟨e, _, Prod.ext he rfl, by decide +kernel, hdescribed⟩,
    f, _, Prod.ext hf rfl, by decide +kernel, hlisted⟩

end Reading

end RegisterMachine
