import RegisterMachine.Proofs.Grammar

/-!
# Where a token stands is not read

A reading gets whole tokens and looks at no more than their words: started before the same words it
comes to the same answer or to the same error, and stands before the same words again
(`Reading.Placeless`). So a text can be replaced by another with the same words, and what is read
behind some words does not depend on them.

A token itself is an answer that knows its place. The lemmas on single tokens are therefore about a
token together with what is made of it, which must depend on the word alone.
-/

namespace RegisterMachine

namespace Cursor

/-- Cursors that stand before the same words. -/
def Abreast (c d : Cursor) : Prop := c.rest.map Token.word = d.rest.map Token.word

variable {c d : Cursor}

theorem Abreast.length_eq (h : c.Abreast d) : c.rest.length = d.rest.length := by
  have hlength := congrArg List.length h
  rwa [List.length_map, List.length_map] at hlength

theorem Abreast.peek_eq (h : c.Abreast d) : c.peek = d.peek := by
  have hpeek (c : Cursor) : c.peek = (c.rest.map Token.word).head?.map Word.kind := by
    rw [List.head?_map, Option.map_map]
    rfl
  rw [hpeek, hpeek, h]

end Cursor

namespace Reading

variable {α β : Type} {p q : Reading α}

/-- A reading that sees nothing of a token but its word. -/
def Placeless (p : Reading α) : Prop :=
  ∀ ⦃c d⦄, c.Abreast d → (p c).1 = (p d).1 ∧ (p c).2.Abreast (p d).2

theorem placeless_pure (a : α) : Placeless (pure a) := fun _ _ h => ⟨rfl, h⟩

theorem placeless_fail (e : ReadError) : Placeless (fail e : Reading α) := fun _ _ h => ⟨rfl, h⟩

theorem Placeless.of_eq (hq : Placeless q) (h : p = q) : Placeless p := h ▸ hq

theorem Placeless.ite {b : Prop} [Decidable b] (hp : Placeless p)
    (hq : Placeless q) : Placeless (if b then p else q) := by
  split
  · exact hp
  · exact hq

theorem Placeless.bind {f : α → Reading β} (hp : Placeless p) (hf : ∀ a, Placeless (f a)) :
    Placeless (p >>= f) := by
  intro c d h
  obtain ⟨hanswer, hrest⟩ := hp h
  show (Reading.bind p f c).1 = (Reading.bind p f d).1
    ∧ (Reading.bind p f c).2.Abreast (Reading.bind p f d).2
  unfold Reading.bind
  generalize p c = r at hanswer hrest
  generalize p d = s at hanswer hrest
  obtain ⟨answer, c'⟩ := r
  obtain ⟨_, d'⟩ := s
  obtain rfl := hanswer
  cases answer with
  | error e => exact ⟨rfl, hrest⟩
  | ok a => exact hf a hrest

/-! ## Single tokens -/

theorem placeless_next_bind {f : Option Word → Reading β} (hf : ∀ w, Placeless (f w)) :
    Placeless (next >>= fun t => f (t.map Token.word)) := by
  intro c d h
  obtain ⟨place, rest⟩ := c
  obtain ⟨place', rest'⟩ := d
  have hwords : rest.map Token.word = rest'.map Token.word := h
  cases rest with
  | nil =>
      obtain rfl := List.map_eq_nil_iff.mp hwords.symm
      exact hf none rfl
  | cons t rest =>
      obtain ⟨t', rest', rfl, hword, hrest⟩ := List.map_eq_cons_iff.mp hwords.symm
      have hkind : t'.kind = t.kind := congrArg Word.kind hword
      have htext : t'.text = t.text := congrArg Word.text hword
      show (Reading.bind next _ _).1 = (Reading.bind next _ _).1
        ∧ (Reading.bind next _ _).2.Abreast (Reading.bind next _ _).2
      unfold Reading.bind next Cursor.next
      dsimp only
      rw [hkind, htext]
      by_cases hclosed : t.kind = .unclosed
      · rw [if_pos hclosed, if_pos hclosed]
        exact ⟨rfl, hrest.symm⟩
      · rw [if_neg hclosed, if_neg hclosed]
        dsimp only [Option.map_some]
        rw [hword]
        exact hf (some t.word) hrest.symm

theorem placeless_token_bind {f : Word → Reading β} (hf : ∀ w, Placeless (f w)) :
    Placeless (token >>= fun t => f t.word) := by
  refine (placeless_next_bind (f := fun w => w.elim (fail .endOfText) f) fun w => ?_).of_eq ?_
  · cases w with
    | none => exact placeless_fail _
    | some w => exact hf w
  · rw [token, bind_assoc]
    refine congrArg _ (funext fun t => ?_)
    cases t <;> rfl

theorem placeless_expect_bind {wanted : Expectation} {f : Word → Reading β}
    (hf : ∀ w, Placeless (f w)) : Placeless (expect wanted >>= fun t => f t.word) := by
  refine (placeless_token_bind (f := fun w =>
    if some w.kind = wanted.kind then f w
    else fail (.unexpected wanted w.kind w.text)) fun w => ?_).of_eq ?_
  · exact (hf w).ite (placeless_fail _)
  · rw [expect, bind_assoc]
    refine congrArg _ (funext fun t => ?_)
    by_cases hkind : some t.kind = wanted.kind
    · rw [if_pos hkind]
      exact (if_pos hkind).symm
    · rw [if_neg hkind]
      exact (if_neg hkind).symm

theorem placeless_atom (wanted : Expectation) : Placeless (atom wanted) :=
  placeless_expect_bind fun w => placeless_pure w.text

theorem placeless_keyword (word : String) : Placeless (keyword word) :=
  (placeless_atom _).bind fun _ => (placeless_pure _).ite (placeless_fail _)

theorem placeless_expectEnd : Placeless expectEnd := by
  refine (placeless_next_bind (f := fun w =>
    w.elim (pure ()) fun w => fail (.unexpected .nothingMore w.kind w.text)) fun w => ?_).of_eq ?_
  · cases w with
    | none => exact placeless_pure _
    | some w => exact placeless_fail _
  · unfold expectEnd
    refine congrArg _ (funext fun t => ?_)
    cases t <;> rfl

/-! ## Repetition -/

theorem Placeless.repeatWhile {more : Option Token.Kind → Bool} (hp : Placeless p) :
    Placeless (Reading.repeatWhile more p) := by
  intro c
  induction hn : c.rest.length using Nat.strongRecOn generalizing c with
  | ind n ih =>
    intro d h
    obtain ⟨hanswer, hrest⟩ := hp h
    rw [Reading.repeatWhile, Reading.repeatWhile, ← h.peek_eq, ← h.length_eq]
    generalize p c = r at hanswer hrest
    generalize p d = s at hanswer hrest
    obtain ⟨answer, c'⟩ := r
    obtain ⟨_, d'⟩ := s
    obtain rfl := hanswer
    by_cases hmore : more c.peek = true
    · rw [if_pos hmore, if_pos hmore]
      cases answer with
      | error e => exact ⟨rfl, hrest⟩
      | ok a =>
          dsimp only
          rw [← Cursor.Abreast.length_eq hrest]
          by_cases hlt : c'.rest.length < c.rest.length
          · rw [dif_pos hlt, dif_pos hlt]
            obtain ⟨hanswers, hbehind⟩ := ih _ (hn ▸ hlt) rfl hrest
            generalize Reading.repeatWhile more p c' = r at hanswers hbehind
            generalize Reading.repeatWhile more p d' = s at hanswers hbehind
            obtain ⟨answers, c''⟩ := r
            obtain ⟨_, d''⟩ := s
            obtain rfl := hanswers
            cases answers with
            | error e => exact ⟨rfl, hbehind⟩
            | ok as => exact ⟨rfl, hbehind⟩
          · rw [dif_neg hlt, dif_neg hlt]
            exact ⟨rfl, hrest⟩
    · rw [if_neg hmore, if_neg hmore]
      exact ⟨rfl, h⟩

/-! ## The readings of the grammar -/

theorem placeless_constant : Placeless constant := by
  refine (placeless_token_bind (f := fun w =>
    if w.kind = .atom then pure (.ofAtom w.text)
    else if w.kind = .string then pure (.symbol (unquote w.text))
    else fail (.unexpected .constant w.kind w.text)) fun w => ?_).of_eq ?_
  · exact (placeless_pure _).ite ((placeless_pure _).ite (placeless_fail _))
  · unfold constant
    refine congrArg _ (funext fun t => ?_)
    obtain ⟨kind, text, _, _⟩ := t
    cases kind <;> rfl

theorem placeless_argument (head : String) : Placeless (argument head) := by
  unfold argument
  refine Placeless.ite ?_ (Placeless.ite ?_ (Placeless.ite ?_ (Placeless.ite ?_ (placeless_fail _))))
  · exact placeless_constant.bind fun _ => placeless_pure _
  · exact (placeless_atom _).bind fun _ => placeless_pure _
  · exact (placeless_atom _).bind fun _ => placeless_pure _
  · exact (placeless_atom _).bind fun _ => placeless_pure _

theorem placeless_form : Placeless form := by
  rw [form_eq]
  refine placeless_expect_bind fun _ => (placeless_atom _).bind fun head => ?_
  refine (placeless_argument head).bind fun e => ?_
  exact placeless_expect_bind fun _ => placeless_pure e

theorem placeless_expression : Placeless expression := by
  refine placeless_form.bind fun e => ?_
  cases e with
  | op name inputs => exact placeless_form.repeatWhile.bind fun _ => placeless_pure _
  | const v => exact placeless_pure _
  | reg name => exact placeless_pure _
  | label name => exact placeless_pure _

theorem placeless_body (verb : String) : Placeless (body verb) := by
  have hexpression {f : Expr → Instruction} : Placeless (expression >>= fun e => pure (f e)) :=
    placeless_expression.bind fun _ => placeless_pure _
  unfold body
  refine Placeless.ite ?_ (Placeless.ite hexpression (Placeless.ite hexpression
    (Placeless.ite hexpression (Placeless.ite hexpression (Placeless.ite ?_ (Placeless.ite ?_
      (placeless_fail _)))))))
  · exact (placeless_atom _).bind fun _ => hexpression
  · exact (placeless_atom _).bind fun _ => placeless_pure _
  · exact (placeless_atom _).bind fun _ => placeless_pure _

theorem placeless_instruction : Placeless instruction := by
  rw [instruction_eq]
  refine (placeless_atom _).bind fun verb => (placeless_body verb).bind fun i => ?_
  exact placeless_expect_bind fun _ => placeless_pure i

theorem placeless_item : Placeless item := by
  intro c d h
  unfold item
  rw [← h.peek_eq]
  split
  · exact (placeless_atom _).bind (fun _ => placeless_pure _) h
  · have hinstruction : Placeless (instruction >>= fun i => pure (Item.instruction i)) :=
      placeless_instruction.bind fun _ => placeless_pure _
    exact placeless_token_bind (fun _ => hinstruction) h
  · exact placeless_token_bind (fun w => placeless_fail (.badToken w.text)) h
  · exact placeless_fail _ h

theorem placeless_items : Placeless items := placeless_item.repeatWhile

theorem placeless_listing {wanted : Expectation} {head : String}
    {more : Option Token.Kind → Bool} (hp : Placeless p) :
    Placeless (do
      let _ ← expect wanted
      keyword head
      let as ← Reading.repeatWhile more p
      let _ ← token
      pure as) := by
  refine placeless_expect_bind fun _ => (placeless_keyword _).bind fun _ => ?_
  refine hp.repeatWhile.bind fun as => ?_
  exact placeless_token_bind fun _ => placeless_pure as

theorem placeless_description : Placeless description := by
  refine placeless_expect_bind fun _ => (placeless_keyword _).bind fun _ => ?_
  refine Placeless.bind (placeless_listing (placeless_atom _)) fun names => ?_
  refine Placeless.bind (placeless_listing placeless_item) fun items => ?_
  refine placeless_expect_bind fun _ => placeless_expectEnd.bind fun _ => ?_
  exact placeless_pure _

end Reading

end RegisterMachine
