import RegisterMachine.Proofs.Legible

/-!
# What source text can spell

The names and the constants of a controller, gathered from all its expressions, and the three things
that a controller read from source text has: its names are atoms, its constants are numbers, truth
values and symbols, and an operation among the inputs of another has no inputs. A controller with
the three is *plain*.

Reading a form falls into its parentheses, its head and what the head asks for. The last part is
given a name here, for forms and for instructions, so that it can be spoken of by itself.
-/

namespace RegisterMachine

/-! ## Names and constants -/

mutual

def Expr.names : Expr → List String
  | .const _ => []
  | .reg name => [name]
  | .label name => [name]
  | .op name inputs => name :: Expr.inputsNames inputs

def Expr.inputsNames : List Expr → List String
  | [] => []
  | x :: xs => x.names ++ Expr.inputsNames xs

end

mutual

def Expr.constants : Expr → List Value
  | .const v => [v]
  | .reg _ => []
  | .label _ => []
  | .op _ inputs => Expr.inputsConstants inputs

def Expr.inputsConstants : List Expr → List Value
  | [] => []
  | x :: xs => x.constants ++ Expr.inputsConstants xs

end

def Expr.inputs : Expr → List Expr
  | .op _ inputs => inputs
  | _ => []

def Expr.isOperation : Expr → Bool
  | .op .. => true
  | _ => false

namespace Instruction

/-- The expression in an instruction. -/
def expr? : Instruction → Option Expr
  | assign _ e | test e | branch e | goto e | perform e => some e
  | save _ | restore _ => none

/-- The register that an instruction names itself, outside of its expression. -/
def reg? : Instruction → Option String
  | assign r _ | save r | restore r => some r
  | test _ | branch _ | goto _ | perform _ => none

end Instruction

namespace Item

def exprs : Item → List Expr
  | label _ => []
  | instruction i => i.expr?.toList

def names : Item → List String
  | label a => [a]
  | instruction i => i.reg?.toList ++ i.expr?.toList.flatMap Expr.names

def constants (x : Item) : List Value := x.exprs.flatMap Expr.constants

end Item

/-! ## Plain controllers -/

structure Expr.Plain (e : Expr) : Prop where
  names : ∀ a ∈ e.names, Token.IsAtom a
  constants : ∀ v ∈ e.constants, v.Literal
  flat : ∀ x ∈ e.inputs, x.inputs = []

structure Item.Plain (x : Item) : Prop where
  names : ∀ a ∈ x.names, Token.IsAtom a
  constants : ∀ v ∈ x.constants, v.Literal
  flat : ∀ e ∈ x.exprs, ∀ y ∈ e.inputs, y.inputs = []

theorem Item.Plain.expr {x : Item} (hx : x.Plain) {e : Expr} (he : e ∈ x.exprs) : e.Plain := by
  refine ⟨?_, ?_, hx.flat e he⟩
  · intro a ha
    cases x with
    | label b => exact absurd he (by simp [exprs])
    | instruction i =>
        exact hx.names a (List.mem_append_right _ (List.mem_flatMap.mpr ⟨e, he, ha⟩))
  · intro v hv
    exact hx.constants v (List.mem_flatMap.mpr ⟨e, he, hv⟩)

theorem Expr.mem_inputsNames {xs : List Expr} {a : String} :
    a ∈ inputsNames xs ↔ ∃ x ∈ xs, a ∈ x.names := by
  induction xs with
  | nil => simp [inputsNames]
  | cons x xs ih => rw [inputsNames, List.mem_append, ih]; simp

theorem Expr.mem_inputsConstants {xs : List Expr} {v : Value} :
    v ∈ inputsConstants xs ↔ ∃ x ∈ xs, v ∈ x.constants := by
  induction xs with
  | nil => simp [inputsConstants]
  | cons x xs ih => rw [inputsConstants, List.mem_append, ih]; simp

/-- The inputs of a plain operation are plain. -/
theorem Expr.Plain.input {name : String} {xs : List Expr} (h : (Expr.op name xs).Plain) {x : Expr}
    (hx : x ∈ xs) : x.Plain := by
  refine ⟨?_, ?_, ?_⟩
  · intro a ha
    exact h.names a (List.mem_cons_of_mem _ (mem_inputsNames.mpr ⟨x, hx, ha⟩))
  · intro v hv
    exact h.constants v (mem_inputsConstants.mpr ⟨x, hx, hv⟩)
  · intro y hy
    rw [h.flat x hx] at hy
    exact absurd hy (by simp)

theorem Expr.Plain.op {name : String} {xs : List Expr} (hname : Token.IsAtom name)
    (hxs : ∀ x ∈ xs, x.Plain ∧ x.inputs = []) : (Expr.op name xs).Plain := by
  refine ⟨?_, ?_, fun x hx => (hxs x hx).2⟩
  · intro a ha
    rcases List.mem_cons.mp ha with rfl | ha
    · exact hname
    · obtain ⟨x, hx, hax⟩ := mem_inputsNames.mp ha
      exact (hxs x hx).1.names a hax
  · intro v hv
    obtain ⟨x, hx, hvx⟩ := mem_inputsConstants.mp hv
    exact (hxs x hx).1.constants v hvx

namespace Reading

/-! ## Forms by their parts -/

/-- What is read behind the head of a form. -/
def argument (head : String) : Reading Expr :=
  if head = "const" then do let v ← constant; pure (.const v)
  else if head = "reg" then do let a ← atom .registerName; pure (.reg a)
  else if head = "label" then do let a ← atom .labelName; pure (.label a)
  else if head = "op" then do let a ← atom .operationName; pure (.op a [])
  else fail (.unknownForm head)

/-- What is read behind the word that an instruction begins with. -/
def body (verb : String) : Reading Instruction :=
  if verb = "assign" then do
    let r ← atom .assignTarget
    let e ← expression
    pure (.assign r e)
  else if verb = "test" then do let e ← expression; pure (.test e)
  else if verb = "perform" then do let e ← expression; pure (.perform e)
  else if verb = "branch" then do let e ← expression; pure (.branch e)
  else if verb = "goto" ∨ verb = "go_to" then do let e ← expression; pure (.goto e)
  else if verb = "save" then do let r ← atom .saveTarget; pure (.save r)
  else if verb = "restore" then do let r ← atom .restoreTarget; pure (.restore r)
  else fail (.unknownForm verb)

variable {α β γ : Type}

theorem bind_assoc (p : Reading α) (f : α → Reading β) (g : β → Reading γ) :
    p >>= f >>= g = p >>= fun a => f a >>= g := by
  funext c
  show Reading.bind (Reading.bind p f) g c = Reading.bind p (fun a => Reading.bind (f a) g) c
  unfold Reading.bind
  cases p c with
  | mk r c' => cases r <;> rfl

theorem form_eq : form = (do
    let _ ← expect .expressionOpening
    let head ← atom .expressionHead
    let e ← argument head
    let _ ← expect .expressionClosing
    pure e) := by
  unfold form argument
  -- every branch ends with the same parenthesis, which is moved behind the choice
  refine congrArg _ (funext fun _ => congrArg _ (funext fun head => ?_))
  dsimp only
  repeat' split
  all_goals first | rfl | rw [bind_assoc]

theorem instruction_eq : instruction = (do
    let verb ← atom .verb
    let i ← body verb
    let _ ← expect .instructionClosing
    pure i) := by
  unfold instruction body
  refine congrArg _ (funext fun verb => ?_)
  dsimp only
  repeat' split
  all_goals first | rfl | simp only [bind_assoc]

/-! ## What is read is plain -/

theorem literal_ofAtom (a : String) : (Value.ofAtom a).Literal := by
  rw [Value.ofAtom_eq]
  split
  · trivial
  · split
    · trivial
    · split <;> trivial

theorem takes_constant : Takes 1 constant Value.Literal := by
  refine takes_token.bind (n := 0) fun t _ => ?_
  split
  · exact Takes.pure (literal_ofAtom _)
  · exact Takes.pure trivial
  · exact Takes.fail 0

/-- A form with a name for its argument. -/
theorem takes_named {wanted : Expectation} (hwanted : wanted.kind = some .atom)
    {f : String → Expr} (hnames : ∀ a, (f a).names = [a]) (hconst : ∀ a, (f a).constants = [])
    (hin : ∀ a, (f a).inputs = []) :
    Takes 1 (atom wanted >>= fun a => pure (f a)) (fun e => e.Plain ∧ e.inputs = []) := by
  refine (takes_atom hwanted).bind (n := 0) fun a ha => Takes.pure ⟨⟨?_, ?_, ?_⟩, hin a⟩
  · rw [hnames]; exact List.forall_mem_singleton.mpr ha
  · rw [hconst]; exact fun v hv => absurd hv (by simp)
  · rw [hin]; exact fun x hx => absurd hx (by simp)

theorem takes_argument (head : String) :
    Takes 1 (argument head) (fun e => e.Plain ∧ e.inputs = []) := by
  unfold argument
  refine Takes.ite ?_ (Takes.ite ?_ (Takes.ite ?_ (Takes.ite ?_ (Takes.fail 1))))
  · refine takes_constant.bind (n := 0) fun v hv => Takes.pure ⟨⟨?_, ?_, ?_⟩, rfl⟩
    · exact fun a ha => absurd ha (by simp [Expr.names])
    · exact List.forall_mem_singleton.mpr hv
    · exact fun x hx => absurd hx (by simp [Expr.inputs])
  · exact takes_named rfl (fun _ => rfl) (fun _ => rfl) (fun _ => rfl)
  · exact takes_named rfl (fun _ => rfl) (fun _ => rfl) (fun _ => rfl)
  · exact takes_named rfl (fun _ => rfl) (fun _ => rfl) (fun _ => rfl)

theorem takes_form : Takes 1 form (fun e => e.Plain ∧ e.inputs = []) := by
  rw [form_eq]
  refine ((takes_expect _).bind (n := 3) fun _ _ => ?_).weaken (by decide)
  refine (takes_atom rfl).bind (n := 2) fun head _ => ?_
  refine (takes_argument head).bind (n := 1) fun e he => ?_
  exact (takes_expect _).bind (n := 0) fun _ _ => Takes.pure he

theorem takes_expression : Takes 1 expression Expr.Plain := by
  refine takes_form.bind (n := 0) fun e he => ?_
  split
  · next name inputs =>
    refine (takes_repeatWhile (takes_form.weaken (by decide))).bind (n := 0) fun xs hxs => ?_
    refine Takes.pure (Expr.Plain.op ?_ hxs)
    exact he.1.names name List.mem_cons_self
  · exact Takes.pure he.1

/-- An instruction is plain if the register and the expression in it are. -/
theorem plain_instruction {i : Instruction} (hr : ∀ r ∈ i.reg?, Token.IsAtom r)
    (he : ∀ e ∈ i.expr?, e.Plain) : (Item.instruction i).Plain := by
  refine ⟨?_, ?_, ?_⟩
  · intro a ha
    rcases List.mem_append.mp ha with h | h
    · exact hr a (Option.mem_toList.mp h)
    · obtain ⟨e, hi, hae⟩ := List.mem_flatMap.mp h
      exact (he e (Option.mem_toList.mp hi)).names a hae
  · intro v hv
    obtain ⟨e, hi, hve⟩ := List.mem_flatMap.mp hv
    exact (he e (Option.mem_toList.mp hi)).constants v hve
  · intro e hi
    exact (he e (Option.mem_toList.mp hi)).flat

/-- An instruction that holds nothing but an expression. -/
theorem takes_with_expr {f : Expr → Instruction} (hreg : ∀ e, (f e).reg? = none)
    (hexpr : ∀ e, (f e).expr? = some e) :
    Takes 1 (expression >>= fun e => pure (f e)) (fun i => (Item.instruction i).Plain) := by
  refine takes_expression.bind (n := 0) fun e he => Takes.pure (plain_instruction ?_ ?_)
  · rw [hreg]; exact fun r h => absurd h (by simp)
  · rw [hexpr]; exact fun x h => Option.some.inj h ▸ he

/-- An instruction that holds nothing but the name of a register. -/
theorem takes_with_reg {wanted : Expectation} (hwanted : wanted.kind = some .atom)
    {f : String → Instruction} (hreg : ∀ r, (f r).reg? = some r) (hexpr : ∀ r, (f r).expr? = none) :
    Takes 1 (atom wanted >>= fun r => pure (f r)) (fun i => (Item.instruction i).Plain) := by
  refine (takes_atom hwanted).bind (n := 0) fun r hr => Takes.pure (plain_instruction ?_ ?_)
  · rw [hreg]; exact fun x h => Option.some.inj h ▸ hr
  · rw [hexpr]; exact fun x h => absurd h (by simp)

theorem takes_body (verb : String) :
    Takes 1 (body verb) (fun i => (Item.instruction i).Plain) := by
  unfold body
  refine Takes.ite ?_ (Takes.ite ?_ (Takes.ite ?_ (Takes.ite ?_ (Takes.ite ?_ (Takes.ite ?_
    (Takes.ite ?_ (Takes.fail 1)))))))
  · refine ((takes_atom rfl).bind (n := 1) fun r hr => ?_).weaken (by decide)
    refine takes_expression.bind (n := 0) fun e he => Takes.pure (plain_instruction ?_ ?_)
    · exact fun x h => Option.some.inj h ▸ hr
    · exact fun x h => Option.some.inj h ▸ he
  · exact takes_with_expr (fun _ => rfl) (fun _ => rfl)
  · exact takes_with_expr (fun _ => rfl) (fun _ => rfl)
  · exact takes_with_expr (fun _ => rfl) (fun _ => rfl)
  · exact takes_with_expr (fun _ => rfl) (fun _ => rfl)
  · exact takes_with_reg rfl (fun _ => rfl) (fun _ => rfl)
  · exact takes_with_reg rfl (fun _ => rfl) (fun _ => rfl)

theorem takes_instruction : Takes 1 instruction (fun i => (Item.instruction i).Plain) := by
  rw [instruction_eq]
  refine ((takes_atom rfl).bind (n := 2) fun verb _ => ?_).weaken (by decide)
  refine (takes_body verb).bind (n := 1) fun i hi => ?_
  exact (takes_expect _).bind (n := 0) fun _ _ => Takes.pure hi

theorem takes_item : Takes 1 item Item.Plain := by
  intro c x c' hc h
  unfold item at h
  split at h
  · have hlabel : Takes 1 (atom .label >>= fun a => pure (Item.label a)) Item.Plain := by
      refine (takes_atom rfl).bind (n := 0) fun a ha => Takes.pure ⟨?_, ?_, ?_⟩
      · exact List.forall_mem_singleton.mpr ha
      · exact fun v hv => absurd hv (by simp [Item.constants, Item.exprs])
      · exact fun e he => absurd he (by simp [Item.exprs])
    exact hlabel hc h
  · have hinstr : Takes 1 (token >>= fun _ => instruction >>= fun i => pure (Item.instruction i))
        Item.Plain := by
      refine (takes_token.bind (n := 1) fun _ _ => ?_).weaken (by decide)
      exact takes_instruction.bind (n := 0) fun i hi => Takes.pure hi
    exact hinstr hc h
  · obtain ⟨t, d, _, hfail⟩ := bind_eq_ok.mp h
    exact absurd hfail fail_ne_ok
  · exact absurd h fail_ne_ok

end Reading

/-- **A controller that is read from source text is plain.** -/
theorem Item.plain_of_listOfSource {source : String} {xs : List Item}
    (h : listOfSource source = .ok xs) : ∀ x ∈ xs, x.Plain := by
  -- every line is read from somewhere further down in the words of the source
  have hitems : Reading.Takes 0 Reading.items (fun xs => ∀ x ∈ xs, Item.Plain x) :=
    Reading.takes_repeatWhile (Reading.takes_item.weaken (by decide))
  have hrun : Reading.items (.ofSource source) =
      (.ok xs, (Reading.items (.ofSource source)).2) := Prod.ext h rfl
  exact (hitems (Cursor.before_ofSource source).sound hrun).1

end RegisterMachine
