import RegisterMachine.Proofs.Stopping

/-!
# Every reading stops in time

Forms, expressions, instructions, items, listings and machines are gone through in the order of the
grammar, and each stops at the first word with which nothing of it can go on (`Reading.Stops`). What
is to be known of the grammar for that is what can follow a beginning: the rows behind the head of a
form, behind the first word of an instruction, behind a form in an expression.
-/

namespace RegisterMachine

namespace Derivation

open Word (opening closing ofAtom)

/-! ## Rows with the same beginning -/

/-- What stands behind the head of a form. -/
def Form.rows (head : String) : Set (List Word) :=
  {v | ∃ f : Form, f.head = head ∧ v = [f.argument, closing]}

theorem Form.mem_rows {head : String} {v : List Word} :
    v ∈ rows head ↔ opening :: ofAtom head :: v ∈ Set.range words := by
  constructor
  · intro h
    obtain ⟨f, rfl, rfl⟩ := h
    exact ⟨f, rfl⟩
  · intro h
    obtain ⟨f, hf⟩ := h
    obtain ⟨hhead, hv⟩ := List.cons.inj (List.cons.inj hf).2
    exact ⟨f, Word.ofAtom_inj.mp hhead, hv.symm⟩

/-- An expression and the parenthesis that closes its instruction. -/
def Expression.rows : Set (List Word) := {v | ∃ x : Expression, v = x.words ++ [closing]}

namespace Instruction

/-- What stands behind the first word of an instruction. -/
def rows (verb : String) : Set (List Word) :=
  {v | ∃ i : Instruction, i.verb = verb ∧ v = i.operands ++ [closing]}

theorem mem_rows {verb : String} {v : List Word} :
    v ∈ rows verb ↔ ofAtom verb :: v ∈ Set.range fun i : Instruction => i.words ++ [closing] := by
  constructor
  · intro h
    obtain ⟨i, rfl, rfl⟩ := h
    exact ⟨i, rfl⟩
  · intro h
    obtain ⟨i, hi⟩ := h
    obtain ⟨hverb, hv⟩ := List.cons.inj hi
    exact ⟨i, Word.ofAtom_inj.mp hverb, hv.symm⟩

theorem rows_assign : rows "assign" = {v | ∃ r, ∃ u ∈ Expression.rows, v = ofAtom r :: u} := by
  ext v
  constructor
  · intro h
    obtain ⟨i, hverb, rfl⟩ := h
    cases i with
    | assign r x => exact ⟨r, _, ⟨x, rfl⟩, rfl⟩
    | act v x => exact absurd hverb v.text_ne_assign
    | move v r => exact absurd hverb v.text_ne_assign
  · intro h
    obtain ⟨r, _, ⟨x, rfl⟩, rfl⟩ := h
    exact ⟨.assign r x, rfl, rfl⟩

theorem rows_act (verb : Acting) : rows verb.text = Expression.rows := by
  ext v
  constructor
  · intro h
    obtain ⟨i, hverb, rfl⟩ := h
    cases i with
    | assign r x => exact absurd hverb.symm verb.text_ne_assign
    | act v x => exact ⟨x, rfl⟩
    | move v r => exact absurd hverb.symm (verb.text_ne_text v)
  · intro h
    obtain ⟨x, rfl⟩ := h
    exact ⟨.act verb x, rfl, rfl⟩

theorem rows_move (verb : Moving) : rows verb.text = {v | ∃ r, v = [ofAtom r, closing]} := by
  ext v
  constructor
  · intro h
    obtain ⟨i, hverb, rfl⟩ := h
    cases i with
    | assign r x => exact absurd hverb.symm verb.text_ne_assign
    | act v x => exact absurd hverb (v.text_ne_text verb)
    | move v r => exact ⟨r, rfl⟩
  · intro h
    obtain ⟨r, rfl⟩ := h
    exact ⟨.move verb r, rfl, rfl⟩

end Instruction

namespace Machine

/-- What stands behind the first word of a machine. -/
def rows : Set (List Word) :=
  {v | ∃ m : Machine, v = registersWords m.registers ++ (controllerWords m.items ++ [closing])}

theorem mem_rows {v : List Word} :
    v ∈ rows ↔ opening :: ofAtom "machine" :: v ∈ Set.range words := by
  constructor
  · intro h
    obtain ⟨m, rfl⟩ := h
    exact ⟨m, by simp [words, listing]⟩
  · intro h
    obtain ⟨m, hm⟩ := h
    rw [words, listing, List.append_assoc] at hm
    exact ⟨m, (List.cons.inj (List.cons.inj hm).2).2.symm⟩

theorem rows_registers (names : List String) : {v | registersWords names ++ v ∈ rows} =
    {v | ∃ items, v = controllerWords items ++ [closing]} := by
  ext v
  constructor
  · intro h
    obtain ⟨m, hm⟩ := h
    exact ⟨m.items, (registersWords_inj _ _ _ _ hm).2⟩
  · intro h
    obtain ⟨items, rfl⟩ := h
    exact ⟨⟨names, items⟩, rfl⟩

end Machine

/-- Items begin with an atom or with a parenthesis that opens. -/
theorem Item.exists_words (x : Item) :
    ∃ w ws, x.words = w :: ws ∧ (w.kind = .atom ∨ w.kind = .leftParen) := by
  cases x with
  | label a => exact ⟨_, _, rfl, Or.inl rfl⟩
  | instruction i => exact ⟨_, _, rfl, Or.inr rfl⟩

theorem Item.rows_opening : {v | [opening] ++ v ∈ Set.range words} =
    Set.range fun i : Instruction => i.words ++ [closing] := by
  ext v
  constructor
  · intro h
    obtain ⟨x, hx⟩ := h
    cases x with
    | label a => exact absurd (List.cons.inj hx).1 (by simp [ofAtom, opening])
    | instruction i => exact ⟨i, (List.cons.inj hx).2⟩
  · intro h
    obtain ⟨i, rfl⟩ := h
    exact ⟨.instruction i, rfl⟩

/-- A form alone is an expression. -/
theorem Expression.exists_words (f : Form) : ∃ x : Expression, x.words = f.words := by
  cases f with
  | op name => exact ⟨.apply name [], List.append_nil _⟩
  | constAtom a => exact ⟨.form (.constAtom a) rfl, rfl⟩
  | constString s => exact ⟨.form (.constString s) rfl, rfl⟩
  | reg a => exact ⟨.form (.reg a) rfl, rfl⟩
  | label a => exact ⟨.form (.label a) rfl, rfl⟩

/-- Behind a form that is no operation an expression is at its end. -/
theorem Expression.rows_form {f : Form} (hf : f.isOperation = false) :
    {v | f.words ++ v ∈ rows} = {[closing]} := by
  ext v
  constructor
  · intro h
    obtain ⟨x, hx⟩ := h
    cases x with
    | form g hg => exact (Form.words_inj hx).2
    | apply name inputs =>
        rw [words, List.append_assoc] at hx
        obtain ⟨rfl, _⟩ := Form.words_inj hx
        exact absurd hf (by simp [Form.isOperation])
  · intro h
    obtain rfl : v = [closing] := h
    exact ⟨.form f hf, rfl⟩

/-- Behind an operation its inputs follow. -/
theorem Expression.rows_op (name : String) :
    {v | (Form.op name).words ++ v ∈ rows} = Reading.closedRows Form.words := by
  ext v
  constructor
  · intro h
    obtain ⟨x, hx⟩ := h
    cases x with
    | form g hg =>
        obtain ⟨rfl, _⟩ := Form.words_inj hx
        exact absurd hg (by simp [Form.isOperation])
    | apply name' inputs =>
        rw [words, List.append_assoc] at hx
        exact ⟨inputs, (Form.words_inj hx).2.symm⟩
  · intro h
    obtain ⟨fs, rfl⟩ := h
    exact ⟨.apply name fs, by rw [words, List.append_assoc]⟩

end Derivation

namespace Reading

open RegisterMachine.Derivation
open Word (opening closing ofAtom spelled_opening spelled_closing spelled_ofAtom)

variable {α β τ : Type} {c c' : Cursor} {e : ReadError} {L : Set (List Word)}

/-- An atom that stands for any, where something has to follow. -/
theorem spelled_letter : (ofAtom "a").Spelled := spelled_ofAtom (by decide)

/-- A parenthesis that closes, and nothing behind it. -/
theorem stops_closing {wanted : Expectation} (hwanted : wanted.kind = some .rightParen) {a : α}
    (hfirst : ∀ l ∈ L, ∃ v, l = closing :: v) (hclosed : [closing] ∈ L) :
    Stops (expect wanted >>= fun _ => pure a) L :=
  Stops.parenthesis_bind (Or.inr rfl) hwanted (stops_pure _ _) hfirst
    ⟨[closing], by simp [spelled_closing], hclosed⟩

/-! ## Forms -/

/-- A constant is an atom or a string. -/
theorem stops_constant : Stops (constant >>= fun v => pure (Expr.const v))
    {l | ∃ f : Form, f.head = "const" ∧ l = [f.argument]} := by
  have hrow : ∀ {w v}, w :: v ∈ {l | ∃ f : Form, f.head = "const" ∧ l = [f.argument]} →
      w.kind = .atom ∨ w.kind = .string := by
    intro w v h
    obtain ⟨f, hf, h⟩ := h
    rw [(List.cons.inj h).1]
    cases f with
    | constAtom _ => exact Or.inl rfl
    | constString _ => exact Or.inr rfl
    | reg _ | label _ | op _ => exact absurd hf (by simp [Form.head])
  unfold constant
  rw [bind_assoc]
  refine Stops.token_bind ?_ ?_ ?_ ?_
  · intro t _ hclosed
    cases hkind : t.kind with
    | atom | string => exact Or.inl (stops_pure _ _)
    | leftParen | rightParen =>
        refine Or.inr ⟨_, .unexpected .constant, by rw [hkind]; rfl, ?_⟩
        intro v hv
        rcases hrow hv with h | h
        · exact absurd (hkind.symm.trans h) (by simp)
        · exact absurd (hkind.symm.trans h) (by simp)
    | unclosed => exact absurd hkind hclosed
  · intro h
    obtain ⟨_, _, h⟩ := h
    exact absurd h (by simp)
  · intro w v hv hw
    rcases hrow hv with h | h
    · exact absurd (hw.symm.trans h) (by simp)
    · exact absurd (hw.symm.trans h) (by simp)
  · exact ⟨[ofAtom "a"], by simp [spelled_letter], .constAtom "a", rfl, rfl⟩

/-- An atom, and nothing behind it. -/
theorem stops_named {wanted : Expectation} (hwanted : wanted.kind = some .atom) {g : String → β}
    (hfirst : ∀ l ∈ L, ∃ a v, l = ofAtom a :: v) (ha : [ofAtom "a"] ∈ L) :
    Stops (atom wanted >>= fun a => pure (g a)) L :=
  Stops.atom_bind hwanted (fun _ => Or.inl (stops_pure _ _)) hfirst
    ⟨[ofAtom "a"], by simp [spelled_letter], ha⟩

theorem stops_argument (f : Form) :
    Stops (argument f.head) {l | ∃ g : Form, g.head = f.head ∧ l = [g.argument]} := by
  have hatom (hf : f.head ≠ "const") :
      ∀ l ∈ {l | ∃ g : Form, g.head = f.head ∧ l = [g.argument]}, ∃ a v, l = ofAtom a :: v := by
    intro l hl
    obtain ⟨g, hg, rfl⟩ := hl
    cases g with
    | constAtom _ | constString _ => exact absurd hg.symm hf
    | reg a | label a | op a => exact ⟨a, [], rfl⟩
  cases f with
  | constAtom _ | constString _ => exact stops_constant
  | reg _ => exact stops_named rfl (hatom (by simp [Form.head])) ⟨.reg "a", rfl, rfl⟩
  | label _ => exact stops_named rfl (hatom (by simp [Form.head])) ⟨.label "a", rfl, rfl⟩
  | op _ => exact stops_named rfl (hatom (by simp [Form.head])) ⟨.op "a", rfl, rfl⟩

theorem argument_of_ne {head : String} (h : ∀ f : Form, f.head ≠ head) :
    argument head = fail (.unknownForm head) := by
  have hconst : head ≠ "const" := (h (.constAtom "")).symm
  have hreg : head ≠ "reg" := (h (.reg "")).symm
  have hlabel : head ≠ "label" := (h (.label "")).symm
  have hop : head ≠ "op" := (h (.op "")).symm
  unfold argument
  rw [if_neg hconst, if_neg hreg, if_neg hlabel, if_neg hop]

theorem derives_argument (head : String) :
    Derives (argument head) (fun f : {f : Form // f.head = head} => [f.1.argument])
      (fun f => f.1.meaning) := by
  intro c e c' hc
  rw [argument_eq_ok hc]
  constructor
  · intro h
    obtain ⟨f, hf, hmeaning, hpasses⟩ := h
    exact ⟨⟨f, hf⟩, hmeaning, hpasses⟩
  · intro h
    obtain ⟨⟨f, hf⟩, hmeaning, hpasses⟩ := h
    exact ⟨f, hf, hmeaning, hpasses⟩

theorem stops_behind_head (f : Form) :
    Stops (argument f.head >>= fun e => expect .expressionClosing >>= fun _ => pure e)
      (Form.rows f.head) := by
  have hrow (g : {g : Form // g.head = f.head}) :
      [g.1.argument] ++ [closing] ∈ Form.rows f.head := ⟨g.1, g.2, rfl⟩
  have hrange : (Set.range fun g : {g : Form // g.head = f.head} => [g.1.argument]) =
      {l | ∃ g : Form, g.head = f.head ∧ l = [g.argument]} := by
    ext l
    simp [eq_comm]
  refine Stops.bind (derives_argument f.head) (hrange ▸ stops_argument f) ?_ ?_ ?_ ?_
  · intro g g' r s h
    obtain ⟨hargument, hrest⟩ := List.cons.inj h
    exact ⟨Subtype.ext (Form.eq_of_head (g.2.trans g'.2.symm) hargument), hrest⟩
  · intro g
    refine stops_closing rfl ?_ (hrow g)
    intro l hl
    obtain ⟨_, _, hl⟩ := hl
    exact ⟨[], (List.cons.inj hl).2⟩
  · intro l hl
    obtain ⟨g, hg, rfl⟩ := hl
    exact ⟨⟨g, hg⟩, [closing], rfl⟩
  · intro g
    exact ⟨[closing], by simp [spelled_closing], hrow g⟩

/-- A form that can be written. -/
theorem spelled_words_reg : ∀ w ∈ (Form.reg "a").words, w.Spelled := by
  have hreg : (ofAtom "reg").Spelled := spelled_ofAtom (by decide)
  simp [Form.words, Form.head, Form.argument, spelled_opening, hreg, spelled_letter,
    spelled_closing]

theorem stops_form : Stops form (Set.range Form.words) := by
  obtain ⟨_, hbehind⟩ := List.forall_mem_cons.mp spelled_words_reg
  rw [form_eq]
  refine Stops.parenthesis_bind (Or.inl rfl) rfl ?_ ?_ ⟨_, spelled_words_reg, .reg "a", rfl⟩
  · refine Stops.atom_bind rfl ?_ ?_ ⟨_, hbehind, .reg "a", rfl⟩
    · intro head
      by_cases hhead : ∃ f : Form, f.head = head
      · obtain ⟨f, rfl⟩ := hhead
        have hrows : {v | ofAtom f.head :: v ∈ {v | opening :: v ∈ Set.range Form.words}} =
            Form.rows f.head := by
          ext v
          exact Form.mem_rows.symm
        rw [hrows]
        exact Or.inl (stops_behind_head f)
      · refine Or.inr ⟨?_, ?_⟩
        · rw [argument_of_ne fun f hf => hhead ⟨f, hf⟩, fail_bind]
        · intro v hv
          obtain ⟨f, hf, _⟩ := Form.mem_rows.mpr hv
          exact hhead ⟨f, hf⟩
    · intro l hl
      obtain ⟨f, hf⟩ := hl
      exact ⟨f.head, _, (List.cons.inj hf).2.symm⟩
  · intro l hl
    obtain ⟨f, rfl⟩ := hl
    exact ⟨_, rfl⟩

/-! ## Expressions -/

theorem unclosed_of_expect {wanted : Expectation} (hwanted : wanted.kind = some .rightParen)
    {a : β} (h : (expect wanted >>= fun _ => pure a) c = (.error e, c')) : Unclosed c e c' := by
  have hclosed : wanted.kind ≠ some .unclosed := by simp [hwanted]
  rcases bind_eq_error.mp h with h | ⟨_, _, _, h⟩
  · rcases expect_error hclosed h with ⟨hrest, rfl, rfl⟩ | ⟨t, rest, hrest, hkind, he, rfl⟩
    · exact .ended hrest
    · refine .other hrest ?_ he
      intro hright
      exact hkind (by rw [hright, hwanted])
  · exact absurd h pure_ne_error

section Expressions

variable {wanted : Expectation} (hwanted : wanted.kind = some .rightParen) (g : Expr → β)

include hwanted

/-- The inputs of an operation, and the parenthesis that closes its instruction. -/
theorem stops_inputs (name : String) :
    Stops ((repeatWhile (· = some .leftParen) form >>= fun xs =>
        (pure (Expr.op name xs) : Reading Expr)) >>= fun e => expect wanted >>= fun _ => pure (g e))
      (closedRows Form.words) := by
  have hassoc : ((repeatWhile (· = some .leftParen) form >>= fun xs =>
        (pure (Expr.op name xs) : Reading Expr)) >>= fun e => expect wanted >>= fun _ => pure (g e)) =
      repeatWhile (· = some .leftParen) form >>= fun xs =>
        expect wanted >>= fun _ => pure (g (Expr.op name xs)) := bind_assoc _ _ _
  rw [hassoc]
  refine Stops.repeat_bind derives_form stops_form (fun _ _ _ _ => Form.words_inj) ?_ rfl ?_
  · intro f
    exact ⟨opening, _, rfl, rfl⟩
  · intro _ _ _ _ _ h
    exact unclosed_of_expect hwanted h

/-- An expression, and the parenthesis that closes its instruction. -/
theorem stops_expression :
    Stops (expression >>= fun e => expect wanted >>= fun _ => pure (g e)) Expression.rows := by
  have hclosing (x : Expr) : Stops (expect wanted >>= fun _ => pure (g x)) {[closing]} :=
    stops_closing hwanted (fun l hl => ⟨[], hl⟩) rfl
  unfold expression
  rw [bind_assoc]
  refine Stops.bind derives_form stops_form (fun _ _ _ _ => Form.words_inj) ?_ ?_ ?_
  · intro f
    cases f with
    | op name =>
        rw [Expression.rows_op]
        exact stops_inputs hwanted g name
    | constAtom _ | constString _ | reg _ | label _ =>
        rw [Expression.rows_form rfl]
        exact hclosing _
  · intro l hl
    obtain ⟨x, rfl⟩ := hl
    cases x with
    | form f hf => exact ⟨f, [closing], rfl⟩
    | apply name inputs => exact ⟨.op name, _, (List.append_assoc ..).symm⟩
  · intro f
    obtain ⟨x, hx⟩ := Expression.exists_words f
    exact ⟨[closing], by simp [spelled_closing], x, by rw [hx]⟩

end Expressions

/-! ## Instructions and items -/

theorem body_of_ne {verb : String} (h : ∀ i : Derivation.Instruction, i.verb ≠ verb) :
    body verb = fail (.unknownForm verb) := by
  have hact (v : Acting) : verb ≠ v.text := (h (.act v (.apply "" []))).symm
  have hassign : verb ≠ "assign" := (h (.assign "" (.apply "" []))).symm
  have htest : verb ≠ "test" := hact .test
  have hperform : verb ≠ "perform" := hact .perform
  have hbranch : verb ≠ "branch" := hact .branch
  have hgoto : ¬ (verb = "goto" ∨ verb = "go_to") := not_or.mpr ⟨hact .goto, hact .goTo⟩
  have hsave : verb ≠ "save" := (h (.move .save "")).symm
  have hrestore : verb ≠ "restore" := (h (.move .restore "")).symm
  unfold body
  rw [if_neg hassign, if_neg htest, if_neg hperform, if_neg hbranch, if_neg hgoto, if_neg hsave,
    if_neg hrestore]

theorem stops_assign :
    Stops (body "assign" >>= fun i => expect .instructionClosing >>= fun _ => pure i)
      (Derivation.Instruction.rows "assign") := by
  show Stops ((atom .assignTarget >>= fun r => expression >>= fun e =>
    pure (RegisterMachine.Instruction.assign r e)) >>= fun i =>
      expect .instructionClosing >>= fun _ => pure i) _
  rw [bind_assoc, Derivation.Instruction.rows_assign]
  refine Stops.atom_bind rfl ?_ ?_ ?_
  · intro r
    left
    have hrows : {v | ofAtom r :: v ∈ {v | ∃ r, ∃ u ∈ Expression.rows, v = ofAtom r :: u}} =
        Expression.rows := by
      ext v
      simp [Word.ofAtom_inj]
    rw [hrows, bind_assoc]
    exact stops_expression rfl (RegisterMachine.Instruction.assign r)
  · intro l hl
    obtain ⟨r, v, _, rfl⟩ := hl
    exact ⟨r, v, rfl⟩
  · refine ⟨ofAtom "a" :: (Form.reg "a").words ++ [closing], ?_,
      "a", _, ⟨.form (.reg "a") rfl, rfl⟩, rfl⟩
    exact List.forall_mem_append.mpr
      ⟨List.forall_mem_cons.mpr ⟨spelled_letter, spelled_words_reg⟩, by simp [spelled_closing]⟩

theorem stops_act (v : Acting) :
    Stops (body v.text >>= fun i => expect .instructionClosing >>= fun _ => pure i)
      (Derivation.Instruction.rows v.text) := by
  have hbody : body v.text = expression >>= fun e => pure (v.meaning e) := by
    cases v <;> rfl
  rw [hbody, bind_assoc, Derivation.Instruction.rows_act]
  exact stops_expression rfl v.meaning

theorem stops_move (v : Moving) :
    Stops (body v.text >>= fun i => expect .instructionClosing >>= fun _ => pure i)
      (Derivation.Instruction.rows v.text) := by
  obtain ⟨wanted, hwanted, hbody⟩ : ∃ wanted : Expectation, wanted.kind = some .atom ∧
      body v.text = atom wanted >>= fun r => pure (v.meaning r) := by
    cases v with
    | save => exact ⟨.saveTarget, rfl, rfl⟩
    | restore => exact ⟨.restoreTarget, rfl, rfl⟩
  rw [hbody, bind_assoc, Derivation.Instruction.rows_move]
  refine Stops.atom_bind hwanted ?_ ?_ ?_
  · intro r
    left
    refine stops_closing rfl ?_ ⟨r, rfl⟩
    intro l hl
    obtain ⟨_, hl⟩ := hl
    exact ⟨[], (List.cons.inj hl).2⟩
  · intro l hl
    obtain ⟨r, rfl⟩ := hl
    exact ⟨r, _, rfl⟩
  · exact ⟨[ofAtom "a", closing], by simp [spelled_letter, spelled_closing], "a", rfl⟩

theorem stops_instruction :
    Stops instruction (Set.range fun i : Derivation.Instruction => i.words ++ [closing]) := by
  rw [instruction_eq]
  refine Stops.atom_bind rfl ?_ ?_ ?_
  · intro verb
    by_cases hverb : ∃ i : Derivation.Instruction, i.verb = verb
    · obtain ⟨i, rfl⟩ := hverb
      have hrows : {v | ofAtom i.verb :: v ∈ Set.range fun i : Derivation.Instruction =>
          i.words ++ [closing]} = Derivation.Instruction.rows i.verb := by
        ext v
        exact Derivation.Instruction.mem_rows.symm
      rw [hrows]
      left
      cases i with
      | assign r x => exact stops_assign
      | act v x => exact stops_act v
      | move v r => exact stops_move v
    · refine Or.inr ⟨?_, ?_⟩
      · rw [body_of_ne fun i hi => hverb ⟨i, hi⟩, fail_bind]
      · intro v hv
        obtain ⟨i, hi, _⟩ := Derivation.Instruction.mem_rows.mpr hv
        exact hverb ⟨i, hi⟩
  · intro l hl
    obtain ⟨i, rfl⟩ := hl
    exact ⟨i.verb, _, rfl⟩
  · have hsave : (ofAtom "save").Spelled := spelled_ofAtom (by decide)
    exact ⟨[ofAtom "save", ofAtom "a", closing], by simp [hsave, spelled_letter, spelled_closing],
      .move .save "a", rfl⟩

/-- A token that is there is taken, unless it is never closed. -/
theorem token_ne_error {k : Token.Kind} (hpeek : c.peek = some k) (hk : k ≠ .unclosed) :
    token c ≠ (.error e, c') := by
  intro h
  unfold Cursor.peek at hpeek
  rcases token_error h with ⟨hrest, _, _⟩ | ⟨t, rest, hrest, hkind, _, _⟩
  · rw [hrest] at hpeek
    exact absurd hpeek (by simp)
  · rw [hrest] at hpeek
    exact hk ((Option.some.inj hpeek).symm.trans hkind)

theorem atom_ne_error {wanted : Expectation} (hwanted : wanted.kind = some .atom)
    (hpeek : c.peek = some .atom) : atom wanted c ≠ (.error e, c') := by
  intro h
  have hclosed : wanted.kind ≠ some .unclosed := by simp [hwanted]
  rcases bind_eq_error.mp h with h | ⟨_, _, _, h⟩
  · unfold Cursor.peek at hpeek
    rcases expect_error hclosed h with ⟨hrest, _, _⟩ | ⟨t, rest, hrest, hkind, _, _⟩
    · rw [hrest] at hpeek
      exact absurd hpeek (by simp)
    · rw [hrest] at hpeek
      exact hkind (hpeek.trans hwanted.symm)
  · exact pure_ne_error h

theorem viable_item : Viable (Set.range Derivation.Item.words) [] :=
  ⟨[ofAtom "a"], by simp [spelled_letter], .label "a", rfl⟩

theorem barred_item {t : Token} (hatom : t.kind ≠ .atom) (hleft : t.kind ≠ .leftParen) :
    Barred (Set.range Derivation.Item.words) [t.word] := by
  intro l hl r s heq
  obtain ⟨x, rfl⟩ := hl
  obtain ⟨w, ws, hwords, hkind⟩ := Item.exists_words x
  rw [hwords] at heq
  rw [(List.cons.inj heq).1] at hkind
  rcases hkind with h | h
  · exact hatom h
  · exact hleft h

/-- What is no line of a controller is taken before it is refused. -/
theorem refuse_eq_error {place : Cursor.Place} {t : Token} {rest : List Token}
    (h : (token >>= fun t => (fail (.badToken t.text) : Reading α)) ⟨place, t :: rest⟩ =
      (.error e, c')) : e = .badToken t.text ∧ c' = ⟨.after t, rest⟩ := by
  rcases bind_eq_error.mp h with h | ⟨t', d, ht, h⟩
  · rcases token_error h with ⟨hrest, _, _⟩ | ⟨t', rest', hrest, _, rfl, rfl⟩
    · exact absurd hrest (by simp)
    · obtain ⟨rfl, rfl⟩ := List.cons.inj hrest
      exact ⟨rfl, rfl⟩
  · obtain ⟨_, rest', hrest, rfl⟩ := token_eq_ok.mp ht
    obtain ⟨rfl, rfl⟩ := List.cons.inj hrest
    obtain ⟨rfl, rfl⟩ := fail_eq_error.mp h
    exact ⟨rfl, rfl⟩

/-- A parenthesis that opens is the beginning of an instruction. -/
theorem stopped_opening (hc : c.Genuine) (hpeek : c.peek = some .leftParen)
    (h : (token >>= fun _ => instruction >>= fun i =>
      (pure (RegisterMachine.Item.instruction i) : Reading RegisterMachine.Item)) c =
        (.error e, c')) : Stopped (Set.range Derivation.Item.words) c e c' := by
  rcases bind_eq_error.mp h with h | ⟨t, d, ht, h⟩
  · exact absurd h (token_ne_error hpeek (by simp))
  · have hpasses := (token_eq_ok_of_peek (w := opening) (Or.inl rfl) hc hpeek).mp ⟨t, ht⟩
    rcases bind_eq_error.mp h with h | ⟨_, _, _, h⟩
    · have hstopped := stops_instruction (hpasses.genuine hc) h
      rw [← Item.rows_opening] at hstopped
      refine hstopped.behind hpasses ?_
      intro l hl r s heq
      obtain ⟨x, rfl⟩ := hl
      cases x with
      | label a => exact absurd (List.cons.inj heq).1 (by simp [ofAtom, opening])
      | instruction i => exact ⟨_, rfl⟩
    · exact absurd h pure_ne_error

theorem stops_item : Stops item (Set.range Derivation.Item.words) := by
  intro c e c' hc h
  obtain ⟨place, rest⟩ := c
  unfold item at h
  cases rest with
  | nil =>
      -- the end of the text is not taken here
      obtain ⟨rfl, rfl⟩ := fail_eq_error.mp h
      exact .ended (.nil _) rfl (Or.inl rfl) viable_item
  | cons t rest =>
      have hpeek : Cursor.peek ⟨place, t :: rest⟩ = some t.kind := rfl
      rw [hpeek] at h
      cases hkind : t.kind with
      | atom =>
          rw [hkind] at h hpeek
          rcases bind_eq_error.mp h with h | ⟨_, _, _, h⟩
          · exact absurd h (atom_ne_error rfl hpeek)
          · exact absurd h pure_ne_error
      | leftParen =>
          rw [hkind] at h hpeek
          exact stopped_opening hc hpeek h
      | rightParen | string | unclosed =>
          rw [hkind] at h
          obtain ⟨rfl, rfl⟩ := refuse_eq_error h
          exact .barred (.nil _) rfl .badToken viable_item
            (barred_item (by rw [hkind]; simp) (by rw [hkind]; simp))

/-! ## Controllers and machines -/

theorem spelled_listing {head : String} (hhead : Token.IsAtom head) {ws : List Word}
    (hws : ∀ w ∈ ws, w.Spelled) : ∀ w ∈ listing head ws, w.Spelled := by
  have hopen : ∀ w ∈ [opening, ofAtom head], w.Spelled := by
    simp [spelled_opening, spelled_ofAtom hhead]
  have hclose : ∀ w ∈ [closing], w.Spelled := by
    simp [spelled_closing]
  exact List.forall_mem_append.mpr ⟨hopen, List.forall_mem_append.mpr ⟨hws, hclose⟩⟩

/-- A listing is looked through up to its closing parenthesis. -/
theorem stops_listing {wanted : Expectation} (hwanted : wanted.kind = some .leftParen)
    {head : String} (hhead : Token.IsAtom head) {p : Reading α} {words : τ → List Word}
    {meaning : τ → α} (hd : Derives p words meaning) (hp : Stops p (Set.range words))
    (hinj : ∀ x y r s, words x ++ r = words y ++ s → x = y ∧ r = s)
    (hfirst : ∀ x, ∃ w ws, words x = w :: ws ∧ w.kind ≠ .rightParen) :
    Stops (do
        let _ ← expect wanted
        keyword head
        let as ← repeatWhile (· ≠ some .rightParen) p
        let _ ← token
        pure as)
      (Set.range fun xs : List τ => listing head (xs.flatMap words)) := by
  have hspelled : ∀ w ∈ listing head (List.flatMap words []), w.Spelled :=
    spelled_listing hhead (by simp)
  have hempty : listing head (List.flatMap words []) ∈
      Set.range fun xs : List τ => listing head (xs.flatMap words) := ⟨[], rfl⟩
  obtain ⟨_, hbehind⟩ := List.forall_mem_cons.mp hspelled
  refine Stops.parenthesis_bind (Or.inl rfl) hwanted ?_ ?_ ⟨_, hspelled, hempty⟩
  · refine Stops.keyword_bind ?_ ?_ ⟨_, hbehind, hempty⟩
    · have hrows : {v | ofAtom head :: v ∈ {v | opening :: v ∈
          Set.range fun xs : List τ => listing head (xs.flatMap words)}} = closedRows words := by
        ext v
        constructor
        · intro h
          obtain ⟨xs, hxs⟩ := h
          exact ⟨xs, (List.cons.inj (List.cons.inj hxs).2).2⟩
        · intro h
          obtain ⟨xs, rfl⟩ := h
          exact ⟨xs, rfl⟩
      rw [hrows]
      refine Stops.repeat_bind hd hp hinj ?_ rfl ?_
      · intro x
        obtain ⟨w, ws, hwords, hw⟩ := hfirst x
        exact ⟨w, ws, hwords, by simpa using hw⟩
      · intro as c e c' hmore h
        -- a repetition that is over stands before the parenthesis
        have hpeek : c.peek = some .rightParen := by simpa using hmore
        rcases bind_eq_error.mp h with h | ⟨_, _, _, h⟩
        · exact absurd h (token_ne_error hpeek (by simp))
        · exact absurd h pure_ne_error
    · intro l hl
      obtain ⟨xs, hxs⟩ := hl
      exact ⟨_, (List.cons.inj hxs).2.symm⟩
  · intro l hl
    obtain ⟨xs, rfl⟩ := hl
    exact ⟨_, rfl⟩

theorem stops_registers : Stops registers (Set.range Machine.registersWords) := by
  have hatom : Stops (atom .registerName) (Set.range fun a => [ofAtom a]) := by
    refine Stops.expect_bind (fun _ _ _ => Or.inl (stops_pure _ _)) (by simp [Expectation.kind]) ?_
      ⟨[ofAtom "a"], by simp [spelled_letter], "a", rfl⟩
    intro l hl
    obtain ⟨a, rfl⟩ := hl
    exact ⟨_, _, rfl, rfl⟩
  have hkind : Expectation.registersOpening.kind = some .leftParen := rfl
  have hword : Token.IsAtom "registers" := by decide
  refine stops_listing hkind hword (derives_atom rfl) hatom ?_ ?_
  · intro a b r s h
    exact ⟨Word.ofAtom_inj.mp (List.cons.inj h).1, (List.cons.inj h).2⟩
  · intro a
    exact ⟨_, _, rfl, by simp [ofAtom]⟩

theorem stops_controller : Stops controller (Set.range Machine.controllerWords) := by
  have hkind : Expectation.controllerOpening.kind = some .leftParen := rfl
  have hword : Token.IsAtom "controller" := by decide
  refine stops_listing hkind hword derives_item stops_item (fun _ _ _ _ => Item.words_inj) ?_
  intro x
  obtain ⟨w, ws, hwords, hw⟩ := Item.exists_words x
  refine ⟨w, ws, hwords, ?_⟩
  rcases hw with hw | hw
  · simp [hw]
  · simp [hw]

/-- The smallest machine, which can be written. -/
theorem spelled_words_machine : ∀ w ∈ (Machine.mk [] []).words, w.Spelled := by
  refine spelled_listing (by decide) (List.forall_mem_append.mpr ⟨?_, ?_⟩)
  · exact spelled_listing (by decide) (by simp)
  · exact spelled_listing (by decide) (by simp)

theorem stops_parts :
    Stops (registers >>= fun names => controller >>= fun items =>
        expect .machineClosing >>= fun _ => pure (Description.mk names items)) Machine.rows := by
  refine Stops.bind derives_registers stops_registers Machine.registersWords_inj ?_ ?_ ?_
  · intro names
    rw [Machine.rows_registers]
    refine Stops.bind derives_controller stops_controller Machine.controllerWords_inj ?_ ?_ ?_
    · intro items
      refine stops_closing rfl ?_ ⟨items, rfl⟩
      intro l hl
      obtain ⟨items', hl⟩ := hl
      exact ⟨[], (Machine.controllerWords_inj _ _ _ _ hl).2⟩
    · intro l hl
      obtain ⟨items, rfl⟩ := hl
      exact ⟨items, _, rfl⟩
    · intro items
      exact ⟨[closing], by simp [spelled_closing], items, rfl⟩
  · intro l hl
    obtain ⟨m, rfl⟩ := hl
    exact ⟨m.registers, _, rfl⟩
  · intro names
    refine ⟨Machine.controllerWords [] ++ [closing], ?_, ⟨names, []⟩, rfl⟩
    exact List.forall_mem_append.mpr
      ⟨spelled_listing (by decide) (by simp), by simp [spelled_closing]⟩

theorem stops_machine : Stops machine (Set.range Machine.words) := by
  have hempty : (Machine.mk [] []).words ∈ Set.range Machine.words := ⟨_, rfl⟩
  obtain ⟨_, hbehind⟩ := List.forall_mem_cons.mp spelled_words_machine
  have hrows : {v | ofAtom "machine" :: v ∈ {v | opening :: v ∈ Set.range Machine.words}} =
      Machine.rows := by
    ext v
    exact Machine.mem_rows.symm
  unfold machine
  refine Stops.parenthesis_bind (Or.inl rfl) rfl ?_ ?_ ⟨_, spelled_words_machine, hempty⟩
  · refine Stops.keyword_bind (hrows ▸ stops_parts) ?_ ⟨_, hbehind, hempty⟩
    intro l hl
    obtain ⟨m, hm⟩ := hl
    exact ⟨_, (List.cons.inj hm).2.symm⟩
  · intro l hl
    obtain ⟨m, rfl⟩ := hl
    exact ⟨_, rfl⟩

end Reading

end RegisterMachine
