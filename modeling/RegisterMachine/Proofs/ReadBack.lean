import Mathlib
import RegisterMachine.Controller.Text
import RegisterMachine.Proofs.Grammar

/-!
# Reading back what was printed

The printed lines of a plain controller are read back as the same controller exactly if its
constants are legible. Both halves are one induction over the controller: each part of the text is
echoed exactly if the constants in it are legible, forms first, then the inputs of an operation,
expressions, instructions and lines.

So the printer does not keep the promise that what it prints reads back unchanged: a controller read
from source text may hold a symbol with a backslash or a number beyond the finite ones, and those
are printed as something else. On every other controller it keeps it.
-/

namespace RegisterMachine

open Token (IsAtom Stops stops_cons stops_nil)

namespace Expr

/-! ## The text of expressions -/

theorem toList_const (v : Value) (cs : List Char) :
    (const v).text.toList ++ cs =
      '(' :: ("const".toList ++ ' ' :: (v.text.toList ++ ')' :: cs)) := by
  simp [text]

theorem toList_reg (a : String) (cs : List Char) :
    (reg a).text.toList ++ cs = '(' :: ("reg".toList ++ ' ' :: (a.toList ++ ')' :: cs)) := by
  simp [text]

theorem toList_label (a : String) (cs : List Char) :
    (label a).text.toList ++ cs = '(' :: ("label".toList ++ ' ' :: (a.toList ++ ')' :: cs)) := by
  simp [text]

theorem toList_op (a : String) (xs : List Expr) (cs : List Char) :
    (op a xs).text.toList ++ cs =
      '(' :: ("op".toList ++ ' ' :: (a.toList ++ ')' :: ((inputsText xs).toList ++ cs))) := by
  simp [text]

theorem text_opens (e : Expr) (cs : List Char) : ∃ cs', e.text.toList ++ cs = '(' :: cs' := by
  cases e with
  | const v => exact ⟨_, toList_const v cs⟩
  | reg a => exact ⟨_, toList_reg a cs⟩
  | label a => exact ⟨_, toList_label a cs⟩
  | op a xs => exact ⟨_, toList_op a xs cs⟩

theorem toList_inputs (x : Expr) (xs : List Expr) (cs : List Char) :
    (inputsText (x :: xs)).toList ++ cs =
      ' ' :: (x.text.toList ++ ((inputsText xs).toList ++ cs)) := by
  simp [inputsText]

end Expr

theorem Verb.isAtom_text (v : Verb) : IsAtom v.text := by
  cases v <;> decide

namespace Instruction

/-- The text of an instruction behind its first word. -/
def bodyText : Instruction → String
  | assign r e => r ++ " " ++ e.text
  | test e | branch e | goto e | perform e => e.text
  | save r | restore r => r

theorem toList_text (i : Instruction) (cs : List Char) :
    i.text.toList ++ cs =
      '(' :: (i.verb.text.toList ++ ' ' :: (i.bodyText.toList ++ ')' :: cs)) := by
  cases i <;> simp [text, bodyText]

end Instruction

namespace Reading

/-! ## Forms -/

/-- A form is echoed as its argument is. -/
theorem echoes_parentheses {head : String} (hhead : IsAtom head) {argument' cs : List Char}
    {S : Expr → Prop} {L : Prop} (h : Echoes (argument head) (argument' ++ ')' :: cs) S L (')' :: cs)) :
    Echoes form ('(' :: (head.toList ++ ' ' :: (argument' ++ ')' :: cs))) S L cs := by
  rw [form_eq]
  refine (finds_open rfl _).bind_echoes fun _ _ => ?_
  refine (finds_atom rfl hhead (stops_cons (by decide))).bind_echoes ?_
  rintro _ rfl
  exact (h.gap rfl).followed (finds_close rfl cs)

/-- A form with a name for its argument is read as it was printed. -/
theorem finds_named {head name : String} (hhead : IsAtom head) (hname : IsAtom name)
    {wanted : Expectation} (hwanted : wanted.kind = some .atom) {f : String → Expr}
    (harg : argument head = do let a ← atom wanted; pure (f a)) (cs : List Char) :
    Finds form ('(' :: (head.toList ++ ' ' :: (name.toList ++ ')' :: cs))) (· = f name) cs := by
  refine (echoes_parentheses (L := True) hhead (Finds.echoes ?_ trivial)).hit trivial
  rw [harg]
  refine (finds_atom hwanted hname (stops_cons (by decide))).bind ?_
  rintro _ rfl
  exact Finds.pure rfl

theorem finds_op {name : String} (h : IsAtom name) (cs : List Char) :
    Finds form ('(' :: ("op".toList ++ ' ' :: (name.toList ++ ')' :: cs)))
      (· = Expr.op name []) cs :=
  finds_named (by decide) h rfl (f := fun a => Expr.op a []) rfl cs

/-- **A form is echoed exactly if the constant that it may hold is legible.** -/
theorem echoes_form {e : Expr} (he : e.Plain) (hin : e.inputs = []) (cs : List Char) :
    Echoes form (e.text.toList ++ cs) (e.same · = true) (∀ v ∈ e.constants, v.Legible) cs := by
  cases e with
  | const v =>
      have hv : v.Literal := he.constants v List.mem_cons_self
      rw [Expr.toList_const]
      refine (echoes_parentheses (by decide) ?_).iff (M := ∀ w ∈ [v], w.Legible)
        List.forall_mem_singleton
      exact (echoes_constant hv (stops_cons (by decide))).map fun _ => Iff.rfl
  | reg a =>
      have ha : IsAtom a := he.names a List.mem_cons_self
      rw [Expr.toList_reg]
      refine ((finds_named (by decide) ha rfl rfl cs).imp ?_).echoes fun v hv =>
        absurd hv (by simp [Expr.constants])
      rintro _ rfl
      exact beq_self_eq_true a
  | label a =>
      have ha : IsAtom a := he.names a List.mem_cons_self
      rw [Expr.toList_label]
      refine ((finds_named (by decide) ha rfl rfl cs).imp ?_).echoes fun v hv =>
        absurd hv (by simp [Expr.constants])
      rintro _ rfl
      exact beq_self_eq_true a
  | op a xs =>
      have ha : IsAtom a := he.names a List.mem_cons_self
      obtain rfl : xs = [] := hin
      rw [Expr.toList_op]
      refine ((finds_op ha cs).imp ?_).echoes fun v hv =>
        absurd hv (by simp [Expr.constants, Expr.inputsConstants])
      rintro _ rfl
      simp [Expr.same, Expr.allSame]

theorem opens_inputs (x : Expr) (xs : List Expr) (cs : List Char) :
    (Token.words (x.text.toList ++ ((Expr.inputsText xs).toList ++ cs))).head?.map Word.kind =
      some .leftParen := by
  obtain ⟨cs', h⟩ := x.text_opens ((Expr.inputsText xs).toList ++ cs)
  rw [h, Token.words_open]
  rfl

/-- The inputs of an operation are echoed up to its instruction's closing parenthesis. -/
theorem echoes_inputs {xs : List Expr} (hxs : ∀ x ∈ xs, x.Plain ∧ x.inputs = [])
    (cs : List Char) :
    Echoes (repeatWhile (· = some .leftParen) form)
      ((Expr.inputsText xs).toList ++ ')' :: cs) (Expr.allSame xs · = true)
      (∀ v ∈ Expr.inputsConstants xs, v.Legible) (')' :: cs) := by
  induction xs with
  | nil =>
      have htext : (Expr.inputsText []).toList ++ ')' :: cs = ')' :: cs := rfl
      rw [htext]
      refine (echoes_repeatWhile_nil (U := (Expr.allSame [] · = true)) ?_ rfl).iff ?_
      · rw [Token.words_close]
        rfl
      · simp [Expr.inputsConstants]
  | cons x xs ih =>
      obtain ⟨⟨hx, hin⟩, hrest⟩ := List.forall_mem_cons.mp hxs
      rw [Expr.toList_inputs]
      refine ((echoes_repeatWhile_cons ?_ (takes_form.imp fun _ _ => trivial)
        (echoes_form hx hin _) (ih hrest) ?_).gap rfl).iff ?_
      · rw [opens_inputs]
        rfl
      · intro a as
        simp [Expr.allSame]
      · simp [Expr.inputsConstants, or_imp, forall_and]

/-- An expression that is no operation is echoed as the form that it is: no operation that might be
read in its place is the same. -/
theorem echoes_expression_of_form {e : Expr} (hop : ∀ a xs, e.same (.op a xs) = false)
    {cs cs' : List Char} {L : Prop} (h : Echoes form cs (e.same · = true) L cs') :
    Echoes expression cs (e.same · = true) L cs' := by
  refine ⟨?_, ?_⟩
  · intro hL c hc
    obtain ⟨x, c', hx, hsame, hc'⟩ := h.hit hL hc
    refine ⟨x, c', bind_eq_ok.mpr ⟨x, c', hx, ?_⟩, hsame, hc'⟩
    cases x with
    | op a xs => rw [hop] at hsame; exact absurd hsame (by simp)
    | const _ => rfl
    | reg _ => rfl
    | label _ => rfl
  · intro hL c y c'' hc hy hsame
    obtain ⟨x, c', hx, hxy⟩ := bind_eq_ok.mp hy
    -- an operation may be read where another form was printed, with inputs or without
    cases x with
    | op a xs =>
        obtain ⟨ys, d, _, hpure⟩ := bind_eq_ok.mp hxy
        obtain ⟨rfl, _⟩ := pure_eq_ok.mp hpure
        rw [hop] at hsame
        exact absurd hsame (by simp)
    | const _ => obtain ⟨rfl, _⟩ := pure_eq_ok.mp hxy; exact h.miss hL hc hx hsame
    | reg _ => obtain ⟨rfl, _⟩ := pure_eq_ok.mp hxy; exact h.miss hL hc hx hsame
    | label _ => obtain ⟨rfl, _⟩ := pure_eq_ok.mp hxy; exact h.miss hL hc hx hsame

/-- **An expression is echoed exactly if its constants are legible.** -/
theorem echoes_expression {e : Expr} (he : e.Plain) (cs : List Char) :
    Echoes expression (e.text.toList ++ ')' :: cs) (e.same · = true)
      (∀ v ∈ e.constants, v.Legible) (')' :: cs) := by
  cases e with
  | op a xs =>
      have ha : IsAtom a := he.names a List.mem_cons_self
      rw [Expr.toList_op]
      refine (finds_op ha _).bind_echoes ?_
      rintro _ rfl
      refine (echoes_inputs (fun x hx => ⟨he.input hx, he.flat x hx⟩) cs).map ?_
      intro ys
      simp [Expr.same]
  | const v => exact echoes_expression_of_form (fun _ _ => rfl) (echoes_form he rfl _)
  | reg a => exact echoes_expression_of_form (fun _ _ => rfl) (echoes_form he rfl _)
  | label a => exact echoes_expression_of_form (fun _ _ => rfl) (echoes_form he rfl _)

/-! ## Instructions and lines -/

/-- An instruction is echoed as what stands behind its first word. -/
theorem echoes_verb {verb : String} (hverb : IsAtom verb) {rest cs : List Char}
    {S : Instruction → Prop} {L : Prop}
    (h : Echoes (body verb) (rest ++ ')' :: cs) S L (')' :: cs)) :
    Echoes instruction (verb.toList ++ ' ' :: (rest ++ ')' :: cs)) S L cs := by
  rw [instruction_eq]
  refine (finds_atom rfl hverb (stops_cons (by decide))).bind_echoes ?_
  rintro _ rfl
  exact (h.gap rfl).followed (finds_close rfl cs)

/-- An instruction that holds nothing but an expression is echoed as that is. -/
theorem echoes_with_expr {verb : String} (hverb : IsAtom verb) {f : Expr → Instruction}
    (hbody : body verb = do let e ← expression; pure (f e))
    (hsame : ∀ x y, (f x).same (f y) = x.same y) {e : Expr} (he : e.Plain) (cs : List Char) :
    Echoes instruction (verb.toList ++ ' ' :: (e.text.toList ++ ')' :: cs)) ((f e).same · = true)
      (∀ v ∈ e.constants, v.Legible) cs := by
  refine echoes_verb hverb ?_
  rw [hbody]
  refine (echoes_expression he cs).map fun x => ?_
  rw [hsame]

/-- An instruction that holds nothing but the name of a register is read as it was printed. -/
theorem echoes_with_reg {verb : String} (hverb : IsAtom verb) {f : String → Instruction}
    {wanted : Expectation} (hwanted : wanted.kind = some .atom)
    (hbody : body verb = do let r ← atom wanted; pure (f r))
    (hsame : ∀ r, (f r).same (f r) = true) {r : String} (hr : IsAtom r) (cs : List Char) :
    Echoes instruction (verb.toList ++ ' ' :: (r.toList ++ ')' :: cs)) ((f r).same · = true)
      True cs := by
  refine echoes_verb hverb (Finds.echoes ?_ trivial)
  rw [hbody]
  refine (finds_atom hwanted hr (stops_cons (by decide))).bind ?_
  rintro _ rfl
  exact Finds.pure (hsame _)

/-- **An instruction is echoed exactly if its constants are legible.** -/
theorem echoes_instruction {i : Instruction} (hi : (Item.instruction i).Plain) (cs : List Char) :
    Echoes instruction (i.verb.text.toList ++ ' ' :: (i.bodyText.toList ++ ')' :: cs))
      (i.same · = true) (∀ v ∈ (Item.instruction i).constants, v.Legible) cs := by
  -- all that an instruction holds is at most one register and one expression
  have hexpr : ∀ e ∈ i.expr?, e.Plain := by
    intro e he
    exact hi.expr (Option.mem_toList.mpr he)
  have hreg : ∀ r ∈ i.reg?, IsAtom r := by
    intro r hr
    exact hi.names r (List.mem_append_left _ (Option.mem_toList.mpr hr))
  have hconst : (Item.instruction i).constants = i.expr?.toList.flatMap Expr.constants := rfl
  rw [hconst]
  cases i with
  | assign r e =>
      have hr := hreg r rfl
      have he := hexpr e rfl
      have htext : (Instruction.assign r e).bodyText.toList ++ ')' :: cs =
          r.toList ++ ' ' :: (e.text.toList ++ ')' :: cs) := by
        simp [Instruction.bodyText]
      refine (echoes_verb (Verb.isAtom_text _) ?_).iff (L := ∀ v ∈ e.constants, v.Legible)
        (by simp [Instruction.expr?])
      rw [htext]
      refine (finds_atom rfl hr (stops_cons (by decide))).bind_echoes ?_
      rintro _ rfl
      refine ((echoes_expression he cs).gap rfl).map ?_
      intro x
      simp [Instruction.same]
  | test e =>
      exact (echoes_with_expr (Verb.isAtom_text _) rfl (fun _ _ => rfl) (hexpr e rfl) cs).iff
        (by simp [Instruction.expr?])
  | branch e =>
      exact (echoes_with_expr (Verb.isAtom_text _) rfl (fun _ _ => rfl) (hexpr e rfl) cs).iff
        (by simp [Instruction.expr?])
  | goto e =>
      exact (echoes_with_expr (Verb.isAtom_text _) rfl (fun _ _ => rfl) (hexpr e rfl) cs).iff
        (by simp [Instruction.expr?])
  | perform e =>
      exact (echoes_with_expr (Verb.isAtom_text _) rfl (fun _ _ => rfl) (hexpr e rfl) cs).iff
        (by simp [Instruction.expr?])
  | save r =>
      exact (echoes_with_reg (Verb.isAtom_text _) (f := Instruction.save) rfl rfl
        (fun r => beq_self_eq_true r) (hreg r rfl) cs).iff (by simp [Instruction.expr?])
  | restore r =>
      exact (echoes_with_reg (Verb.isAtom_text _) (f := Instruction.restore) rfl rfl
        (fun r => beq_self_eq_true r) (hreg r rfl) cs).iff (by simp [Instruction.expr?])

/-- **A line is echoed exactly if its constants are legible.** -/
theorem echoes_item {x : Item} (hx : x.Plain) {cs : List Char} (hcs : Stops cs) :
    Echoes item (x.text.toList ++ cs) (x.same · = true) (∀ v ∈ x.constants, v.Legible) cs := by
  cases x with
  | label a =>
      have ha : IsAtom a := hx.names a List.mem_cons_self
      have hpeek : ∀ c, Cursor.Before (a.toList ++ cs) c →
          item c = (atom .label >>= fun a => pure (Item.label a)) c := by
        intro c hc
        unfold item
        rw [hc.peek, Token.words_atom ha hcs]
        rfl
      refine Echoes.of_eq hpeek (Finds.echoes ?_ fun v hv => absurd hv (by simp [Item.constants,
        Item.exprs]))
      refine (finds_atom rfl ha hcs).bind ?_
      rintro _ rfl
      exact Finds.pure (beq_self_eq_true _)
  | instruction i =>
      have htext := i.toList_text cs
      have hpeek : ∀ c, Cursor.Before (i.text.toList ++ cs) c →
          item c = (token >>= fun _ => instruction >>= fun i => pure (Item.instruction i)) c := by
        intro c hc
        unfold item
        rw [hc.peek, htext, Token.words_open]
        rfl
      refine Echoes.of_eq hpeek ?_
      rw [Item.text, htext]
      refine (finds_token (Token.words_open _) (by simp)).bind_echoes fun _ _ => ?_
      exact (echoes_instruction hx cs).map fun _ => Iff.rfl

end Reading

namespace Item

theorem linesText_cons_cons (x y : Item) (xs : List Item) :
    (linesText (x :: y :: xs)).toList =
      x.text.toList ++ '\n' :: (linesText (y :: xs)).toList := by
  simp [linesText]

/-- There is a word where a plain line is printed. -/
theorem text_has_word {x : Item} (hx : x.Plain) {cs : List Char} (hcs : Stops cs) :
    (Token.words (x.text.toList ++ cs)).head?.isSome = true := by
  cases x with
  | label a =>
      have ha : IsAtom a := hx.names a List.mem_cons_self
      rw [text, Token.words_atom ha hcs]
      rfl
  | instruction i =>
      rw [text, i.toList_text, Token.words_open]
      rfl

end Item

namespace Reading

/-- **Printed lines are echoed exactly if their constants are legible.** -/
theorem echoes_items {xs : List Item} (hxs : ∀ x ∈ xs, x.Plain) :
    Echoes items (Item.linesText xs).toList (Item.allSame xs · = true)
      (∀ x ∈ xs, ∀ v ∈ x.constants, v.Legible) [] := by
  -- a line with what is printed behind it, be it nothing or a line break and the other lines
  have hstep : ∀ {x : Item} {rest : List Item} {cs : List Char}, x.Plain → Stops cs →
      Echoes items cs (Item.allSame rest · = true)
        (∀ x ∈ rest, ∀ v ∈ x.constants, v.Legible) [] →
      Echoes items (x.text.toList ++ cs) (Item.allSame (x :: rest) · = true)
        (∀ y ∈ x :: rest, ∀ v ∈ y.constants, v.Legible) [] := by
    intro x rest cs hx hcs hrest
    refine (echoes_repeatWhile_cons ?_ (takes_item.imp fun _ _ => trivial) (echoes_item hx hcs)
      hrest ?_).iff List.forall_mem_cons
    · rw [Option.isSome_map]
      exact Item.text_has_word hx hcs
    · intro a as
      simp [Item.allSame]
  have hend : Echoes items [] (Item.allSame [] · = true)
      (∀ x ∈ ([] : List Item), ∀ v ∈ x.constants, v.Legible) [] := by
    refine (echoes_repeatWhile_nil (U := (Item.allSame [] · = true)) ?_ rfl).iff ?_
    · rw [Token.words_nil]
      rfl
    · simp
  induction xs with
  | nil => exact hend
  | cons x xs ih =>
      obtain ⟨hx, hrest⟩ := List.forall_mem_cons.mp hxs
      cases xs with
      | nil =>
          have h := hstep hx stops_nil hend
          rw [List.append_nil] at h
          exact h
      | cons y ys =>
          rw [Item.linesText_cons_cons]
          exact hstep hx (stops_cons (by decide)) ((ih hrest).gap rfl)

end Reading

namespace Item

/-- A controller that is printed and read back as it was. -/
def ReadsBack (xs : List Item) : Prop :=
  ∃ ys, listOfSource (linesText xs) = .ok ys ∧ allSame xs ys = true

theorem readsBack_iff {xs : List Item} (hxs : ∀ x ∈ xs, x.Plain) :
    ReadsBack xs ↔ ∀ x ∈ xs, ∀ v ∈ x.constants, v.Legible := by
  have hechoes := Reading.echoes_items hxs
  have hbefore := Cursor.before_ofSource (linesText xs)
  refine ⟨?_, ?_⟩
  -- read it may be, but never as the same controller
  · rintro ⟨ys, hys, hsame⟩
    by_contra hL
    exact hechoes.miss hL hbefore (Prod.ext hys rfl) hsame
  · intro hL
    obtain ⟨ys, c, hys, hsame, _⟩ := hechoes.hit hL hbefore
    exact ⟨ys, congrArg Prod.fst hys, hsame⟩

/-! ## Which controllers are read back -/

/-- **Of the controllers that are read from source text, those are read back that hold no symbol
with an escape between its quotes and no number beyond the finite ones.** -/
theorem readsBack_iff_of_source {source : String} {xs : List Item}
    (h : listOfSource source = .ok xs) :
    ReadsBack xs ↔ ∀ x ∈ xs, ∀ v ∈ x.constants,
      (∀ s, v = .symbol s → Value.needsQuotes s = false ∨ ∀ c ∈ s.toList, Text.escape? c = none) ∧
      (∀ n, v = .number n → n.rank < Number.rankOfInfinity) := by
  have hplain := plain_of_listOfSource h
  rw [readsBack_iff hplain]
  refine forall₂_congr fun x hx => forall₂_congr fun v hv => ?_
  have hliteral := (hplain x hx).constants v hv
  cases v with
  | unassigned => exact absurd hliteral (by simp [Value.Literal])
  | position k => exact absurd hliteral (by simp [Value.Literal])
  | bool b => simp [Value.Legible]
  | number n => simp [Value.Legible, Value.same_ofAtom_text]
  | symbol s => simp [Value.Legible]

/-- A controller with quoted text that holds nothing to escape. -/
theorem readsBack_of_source_blank :
    ∃ xs, listOfSource "loop (assign x (op cons) (const \"a b\") (op nil))" = .ok xs ∧
      ReadsBack xs := by
  have hread : listOfSource "loop (assign x (op cons) (const \"a b\") (op nil))" =
      .ok [.label "loop", .instruction (.assign "x"
        (.op "cons" [.const (.symbol "a b"), .op "nil" []]))] := by
    cbv
  refine ⟨_, hread, (readsBack_iff_of_source hread).mpr ?_⟩
  have hconst : ∀ x ∈ [Item.label "loop", .instruction (.assign "x"
      (.op "cons" [.const (.symbol "a b"), .op "nil" []]))],
      ∀ v ∈ x.constants, v = .symbol "a b" := by
    simp [constants, exprs, Instruction.expr?, Expr.constants, Expr.inputsConstants]
  intro x hx v hv
  rw [hconst x hx v hv]
  refine ⟨?_, fun n hn => absurd hn (by simp)⟩
  rintro s ⟨⟩
  have hclear : "a b".toList.all (fun c => (Text.escape? c).isNone) = true := by decide
  exact Or.inr fun c hc => Option.isNone_iff_eq_none.mp (List.all_eq_true.mp hclear c hc)

/-- **A symbol with a backslash and a blank is printed as text that is read as another symbol.** -/
theorem not_readsBack_of_source_backslash :
    ∃ xs, listOfSource "(assign x (const \"a \\ b\"))" = .ok xs ∧ ¬ReadsBack xs := by
  have hread : listOfSource "(assign x (const \"a \\ b\"))" =
      .ok [.instruction (.assign "x" (.const (.symbol "a \\ b")))] := by
    cbv
  refine ⟨_, hread, ?_⟩
  rw [readsBack_iff (plain_of_listOfSource hread)]
  intro hlegible
  rcases hlegible _ List.mem_cons_self (.symbol "a \\ b") List.mem_cons_self with h | h
  · exact absurd h (by decide)
  · exact absurd (h '\\' (by decide)) (by decide)

/-- **The exact boundary of reading back.** A controller whose names are atoms, whose operations
have no operations among their inputs and whose numbers are read from their own text is read back if
and only if none of its symbols is quoted with an escape. A symbol with a quote in it is always
quoted, and whatever follows its text, another symbol is read there. -/
theorem readsBack_iff_symbols {xs : List Item}
    (hnames : ∀ x ∈ xs, ∀ a ∈ x.names, IsAtom a)
    (hflat : ∀ x ∈ xs, ∀ e ∈ x.exprs, ∀ y ∈ e.inputs, y.isOperation = false)
    (hconst : ∀ x ∈ xs, ∀ v ∈ x.constants, (∃ b, v = .bool b) ∨ (∃ s, v = .symbol s) ∨
      ∃ n, v = .number n ∧ (Value.ofAtom n.text).same (.number n) = true) :
    (ReadsBack xs ↔ ∀ x ∈ xs, ∀ s, Value.symbol s ∈ x.constants →
      Value.needsQuotes s = false ∨ ∀ c ∈ s.toList, Text.escape? c = none) ∧
    ∀ s : String, '"' ∈ s.toList → (Value.symbol s).text = Text.quote s ∧ ∀ after : String,
      ∃ t, t ≠ s ∧
        (Reading.constant (.ofSource ((Value.symbol s).text ++ after))).1 = .ok (.symbol t) := by
  have hplain : ∀ x ∈ xs, x.Plain := by
    intro x hx
    refine ⟨hnames x hx, ?_, ?_⟩
    · intro v hv
      rcases hconst x hx v hv with ⟨b, rfl⟩ | ⟨s, rfl⟩ | ⟨n, rfl, _⟩ <;> trivial
    · intro e he y hy
      have hop := hflat x hx e he y hy
      cases y with
      | op a ys => exact absurd hop (by simp [Expr.isOperation])
      | const v => rfl
      | reg a => rfl
      | label a => rfl
  refine ⟨?_, ?_⟩
  · rw [readsBack_iff hplain]
    refine ⟨?_, ?_⟩
    · intro h x hx s hs
      exact h x hx _ hs
    · intro h x hx v hv
      rcases hconst x hx v hv with ⟨b, rfl⟩ | ⟨s, rfl⟩ | ⟨n, rfl, hn⟩
      · trivial
      · exact h x hx s hv
      · exact hn
  · intro s hquote
    have htext : (Value.symbol s).text = Text.quote s :=
      if_pos (Value.needsQuotes_of_quote_mem hquote)
    refine ⟨htext, fun after => ?_⟩
    obtain ⟨cs', hfinds⟩ := Reading.finds_constant_quote s after.toList
    have hbefore := Cursor.before_ofSource (Text.quote s ++ after)
    rw [String.toList_append] at hbefore
    obtain ⟨v, c', hv, rfl, _⟩ := hfinds hbefore
    rw [htext]
    refine ⟨_, ?_, congrArg Prod.fst hv⟩
    intro heq
    have hlist := congrArg String.toList heq
    rw [String.toList_ofList] at hlist
    exact Text.takeWhile_flatMap_escape_ne hquote (by decide) hlist

/-- Lines with a number, a symbol that is quoted without an escape, and one that holds quotes. -/
def greeting : List Item :=
  [.label "hello",
    .instruction (.assign "x" (.op "cons" [.const (.number ⟨0x3FF8000000000000⟩),
      .const (.bool true), .const (.symbol "a b"), .reg "y"])),
    .instruction (.perform (.op "print" [.const (.symbol "say \"hi\"")]))]

/-- The greeting is not read back, for its last line holds quotes. -/
theorem not_readsBack_greeting : ¬ReadsBack greeting := by
  have hnames : ∀ x ∈ greeting, ∀ a ∈ x.names, IsAtom a := by
    simp [greeting, names, Instruction.reg?, Instruction.expr?, Expr.names, Expr.inputsNames]
    decide
  have hflat : ∀ x ∈ greeting, ∀ e ∈ x.exprs, ∀ y ∈ e.inputs, y.isOperation = false := by
    simp [greeting, exprs, Instruction.expr?, Expr.inputs, Expr.isOperation]
  have hall : ∀ x ∈ greeting, ∀ v ∈ x.constants, v = .number ⟨0x3FF8000000000000⟩ ∨
      v = .bool true ∨ v = .symbol "a b" ∨ v = .symbol "say \"hi\"" := by
    simp [greeting, constants, exprs, Instruction.expr?, Expr.constants, Expr.inputsConstants]
  have hconst : ∀ x ∈ greeting, ∀ v ∈ x.constants, (∃ b, v = .bool b) ∨ (∃ s, v = .symbol s) ∨
      ∃ n, v = .number n ∧ (Value.ofAtom n.text).same (.number n) = true := by
    intro x hx v hv
    rcases hall x hx v hv with rfl | rfl | rfl | rfl
    · exact Or.inr (Or.inr ⟨_, rfl, (Value.same_ofAtom_text _).mpr (by decide)⟩)
    · exact Or.inl ⟨_, rfl⟩
    · exact Or.inr (Or.inl ⟨_, rfl⟩)
    · exact Or.inr (Or.inl ⟨_, rfl⟩)
  intro hback
  have hsymbols := (readsBack_iff_symbols hnames hflat hconst).1.mp hback
  rcases hsymbols _ (List.mem_of_getElem? (i := 2) rfl) "say \"hi\"" List.mem_cons_self with h | h
  · exact absurd h (by decide)
  · exact absurd (h '"' (by decide)) (by decide)

end Item

end RegisterMachine
