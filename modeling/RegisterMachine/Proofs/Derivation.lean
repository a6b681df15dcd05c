import RegisterMachine.Proofs.Words

/-!
# Derivations

The grammar of source text, as the trees it derives:

    machine     = ( machine ( registers ATOM* ) ( controller item* ) )
    item        = ATOM | ( instruction )
    instruction = assign ATOM expression | save ATOM | restore ATOM
                | test expression | perform expression | branch expression
                | goto expression | go_to expression
    expression  = form, unless it is ( op ATOM ) | ( op ATOM ) form*
    form        = ( const ATOM ) | ( const STRING ) | ( reg ATOM ) | ( label ATOM ) | ( op ATOM )

There is one type for each symbol and one constructor for each of its productions. A derivation has
`words`, the text it derives, and a `meaning`, the part of a description it stands for; both say
nothing about how a text is read.

The grammar is unambiguous: words determine the derivation (`Machine.words_injective`,
`Item.flatMap_words_injective`). Two derivations of the same text agree from the front, where each
production shows itself by its first words, and the inputs of an operation end where a closing
parenthesis stands.
-/

namespace RegisterMachine

namespace Word

def opening : Word := ⟨.leftParen, "("⟩

def closing : Word := ⟨.rightParen, ")"⟩

def ofAtom (a : String) : Word := ⟨.atom, a⟩

/-- The text between two quotes. -/
def ofString (s : String) : Word := ⟨.string, "\"" ++ s ++ "\""⟩

theorem ofAtom_inj {a b : String} : ofAtom a = ofAtom b ↔ a = b := by
  simp [ofAtom]

end Word

/-- A word that is written as its kind is. -/
def Word.Genuine (w : Word) : Prop :=
  match w.kind with
  | .leftParen => w = .opening
  | .rightParen => w = .closing
  | .string => ∃ s, w = .ofString s
  | .atom | .unclosed => True

namespace Word

variable {w v : Word}

theorem eq_ofAtom (h : w.kind = .atom) : w = .ofAtom w.text := by
  rw [ofAtom, ← h]

theorem Genuine.eq_ofString (hw : w.Genuine) (h : w.kind = .string) : ∃ s, w = .ofString s := by
  unfold Genuine at hw
  rw [h] at hw
  exact hw

/-- Parentheses are told by their kind. -/
theorem Genuine.eq_of_kind (hw : w.Genuine) (hv : v = .opening ∨ v = .closing)
    (h : w.kind = v.kind) : w = v := by
  unfold Genuine at hw
  rcases hv with rfl | rfl
  · rw [h] at hw; exact hw
  · rw [h] at hw; exact hw

end Word

namespace Token

theorem Cut.genuine {p : Piece} {rest : List Char} {w : Word} (h : Cut p rest)
    (hw : p.word? = some w) : w.Genuine := by
  cases h with
  | blanks | comment => exact absurd hw (by simp [Piece.word?])
  | leftParen | rightParen => rw [← Option.some.inj hw]; rfl
  | atom | unclosed => rw [← Option.some.inj hw]; trivial
  | @string body =>
      rw [← Option.some.inj hw]
      refine ⟨String.ofList body, congrArg (Word.mk .string) ?_⟩
      exact String.toList_inj.mp (by simp)

theorem genuine_words (cs : List Char) : ∀ w ∈ words cs, Word.Genuine w :=
  forall_words Cut.genuine cs

end Token

namespace Derivation

/-! ## Trees -/

inductive Form where
  | constAtom (a : String)
  | constString (s : String)
  | reg (a : String)
  | label (a : String)
  | op (a : String)

namespace Form

def head : Form → String
  | constAtom _ | constString _ => "const"
  | reg _ => "reg"
  | label _ => "label"
  | op _ => "op"

def argument : Form → Word
  | constString s => .ofString s
  | constAtom a | reg a | label a | op a => .ofAtom a

def words (f : Form) : List Word := [.opening, .ofAtom f.head, f.argument, .closing]

/-- An atom stands for the value it spells, a string for the symbol between its quotes. -/
def meaning : Form → Expr
  | constAtom a => .const (.ofAtom a)
  | constString s => .const (.symbol s)
  | reg a => .reg a
  | label a => .label a
  | op a => .op a []

def isOperation : Form → Bool
  | op _ => true
  | constAtom _ | constString _ | reg _ | label _ => false

end Form

inductive Expression where
  | form (f : Form) (plain : f.isOperation = false)
  | apply (name : String) (inputs : List Form)

namespace Expression

def words : Expression → List Word
  | form f _ => f.words
  | apply name inputs => (Form.op name).words ++ inputs.flatMap Form.words

def meaning : Expression → Expr
  | form f _ => f.meaning
  | apply name inputs => .op name (inputs.map Form.meaning)

end Expression

/-- The words in front of an expression. -/
inductive Acting where
  | test | perform | branch | goto | goTo

def Acting.text : Acting → String
  | test => "test"
  | perform => "perform"
  | branch => "branch"
  | goto => "goto"
  | goTo => "go_to"

def Acting.meaning : Acting → Expr → RegisterMachine.Instruction
  | test => .test
  | perform => .perform
  | branch => .branch
  | goto | goTo => .goto

/-- The words in front of a register. -/
inductive Moving where
  | save | restore

def Moving.text : Moving → String
  | save => "save"
  | restore => "restore"

def Moving.meaning : Moving → String → RegisterMachine.Instruction
  | save => .save
  | restore => .restore

inductive Instruction where
  | assign (reg : String) (source : Expression)
  | act (verb : Acting) (e : Expression)
  | move (verb : Moving) (reg : String)

namespace Instruction

/-- The first word, which tells the production. -/
def verb : Instruction → String
  | assign .. => "assign"
  | act verb _ => verb.text
  | move verb _ => verb.text

def operands : Instruction → List Word
  | assign reg source => .ofAtom reg :: source.words
  | act _ e => e.words
  | move _ reg => [.ofAtom reg]

def words (i : Instruction) : List Word := .ofAtom i.verb :: i.operands

def meaning : Instruction → RegisterMachine.Instruction
  | assign reg source => .assign reg source.meaning
  | act verb e => verb.meaning e.meaning
  | move verb reg => verb.meaning reg

end Instruction

inductive Item where
  | label (a : String)
  | instruction (i : Instruction)

namespace Item

def words : Item → List Word
  | label a => [.ofAtom a]
  | instruction i => .opening :: (i.words ++ [.closing])

def meaning : Item → RegisterMachine.Item
  | label a => .label a
  | instruction i => .instruction i.meaning

end Item

/-- Words in parentheses, behind the word that says what they are. -/
def listing (head : String) (ws : List Word) : List Word :=
  .opening :: .ofAtom head :: (ws ++ [.closing])

structure Machine where
  registers : List String
  items : List Item

namespace Machine

def registersWords (names : List String) : List Word :=
  listing "registers" (names.flatMap ([.ofAtom ·]))

def controllerWords (items : List Item) : List Word :=
  listing "controller" (items.flatMap Item.words)

def words (m : Machine) : List Word :=
  listing "machine" (registersWords m.registers ++ controllerWords m.items)

def meaning (m : Machine) : Description := ⟨m.registers, m.items.map Item.meaning⟩

end Machine

/-! ## Nothing unclosed -/

theorem Form.kind_of_mem_words {f : Form} {w : Word} (hw : w ∈ f.words) : w.kind ≠ .unclosed := by
  have hargument : f.argument.kind ≠ .unclosed := by
    cases f <;> simp [argument, Word.ofAtom, Word.ofString]
  simp only [words, List.mem_cons, List.not_mem_nil, or_false] at hw
  rcases hw with rfl | rfl | rfl | rfl
  · simp [Word.opening]
  · simp [Word.ofAtom]
  · exact hargument
  · simp [Word.closing]

theorem Expression.kind_of_mem_words {e : Expression} {w : Word} (hw : w ∈ e.words) :
    w.kind ≠ .unclosed := by
  cases e with
  | form f hf => exact Form.kind_of_mem_words hw
  | apply name inputs =>
      rcases List.mem_append.mp hw with h | h
      · exact Form.kind_of_mem_words h
      · obtain ⟨f, _, h⟩ := List.mem_flatMap.mp h
        exact Form.kind_of_mem_words h

theorem Instruction.kind_of_mem_words {i : Instruction} {w : Word} (hw : w ∈ i.words) :
    w.kind ≠ .unclosed := by
  rcases List.mem_cons.mp hw with rfl | h
  · simp [Word.ofAtom]
  · cases i with
    | assign reg e =>
        rcases List.mem_cons.mp h with rfl | h
        · simp [Word.ofAtom]
        · exact Expression.kind_of_mem_words h
    | act v e => exact Expression.kind_of_mem_words h
    | move v reg =>
        obtain rfl := List.mem_singleton.mp h
        simp [Word.ofAtom]

theorem Item.kind_of_mem_words {x : Item} {w : Word} (hw : w ∈ x.words) : w.kind ≠ .unclosed := by
  cases x with
  | label a =>
      obtain rfl := List.mem_singleton.mp hw
      simp [Word.ofAtom]
  | instruction i =>
      rcases List.mem_cons.mp hw with rfl | h
      · simp [Word.opening]
      · rcases List.mem_append.mp h with h | h
        · exact Instruction.kind_of_mem_words h
        · obtain rfl := List.mem_singleton.mp h
          simp [Word.closing]

theorem kind_of_mem_listing {head : String} {ws : List Word} {w : Word} (hw : w ∈ listing head ws)
    (hws : ∀ w ∈ ws, w.kind ≠ .unclosed) : w.kind ≠ .unclosed := by
  simp only [listing, List.mem_cons, List.mem_append, List.not_mem_nil, or_false] at hw
  rcases hw with rfl | rfl | h | rfl
  · simp [Word.opening]
  · simp [Word.ofAtom]
  · exact hws w h
  · simp [Word.closing]

theorem Item.kind_of_mem_flatMap_words {xs : List Item} {w : Word} (hw : w ∈ xs.flatMap words) :
    w.kind ≠ .unclosed := by
  obtain ⟨x, _, h⟩ := List.mem_flatMap.mp hw
  exact kind_of_mem_words h

/-- No word of a derivation is a string that does not end. -/
theorem Machine.kind_of_mem_words {m : Machine} {w : Word} (hw : w ∈ m.words) :
    w.kind ≠ .unclosed := by
  refine kind_of_mem_listing hw fun v hv => ?_
  rcases List.mem_append.mp hv with h | h
  · refine kind_of_mem_listing h fun u hu => ?_
    obtain ⟨a, _, ha⟩ := List.mem_flatMap.mp hu
    obtain rfl := List.mem_singleton.mp ha
    simp [Word.ofAtom]
  · exact kind_of_mem_listing h fun u hu => Item.kind_of_mem_flatMap_words hu

/-! ## One derivation for each text -/

section Lists

variable {τ : Type} {words : τ → List Word}

/-- Of trees that stand one behind the other, up to a word that none of them begins with, the words
determine each. -/
theorem flatMap_words_inj (hinj : ∀ x y r s, words x ++ r = words y ++ s → x = y ∧ r = s)
    (hfirst : ∀ x r, (words x ++ r).head? ≠ some .closing) {xs ys : List τ} {r s : List Word}
    (h : xs.flatMap words ++ .closing :: r = ys.flatMap words ++ .closing :: s) :
    xs = ys ∧ r = s := by
  induction xs generalizing ys with
  | nil =>
      cases ys with
      | nil => exact ⟨rfl, (List.cons.inj h).2⟩
      | cons y ys =>
          rw [List.flatMap_cons, List.append_assoc] at h
          exact absurd (congrArg List.head? h).symm (hfirst y _)
  | cons x xs ih =>
      rw [List.flatMap_cons, List.append_assoc] at h
      cases ys with
      | nil => exact absurd (congrArg List.head? h) (hfirst x _)
      | cons y ys =>
          rw [List.flatMap_cons, List.append_assoc] at h
          obtain ⟨rfl, htail⟩ := hinj x y _ _ h
          obtain ⟨rfl, hrest⟩ := ih htail
          exact ⟨rfl, hrest⟩

end Lists

/-- The words of a form are its head and its argument. -/
theorem Form.eq_of_head {f g : Form} (hhead : f.head = g.head)
    (hargument : f.argument = g.argument) : f = g := by
  cases f <;> cases g <;>
    simp_all [head, argument, Word.ofAtom, Word.ofString]

theorem Form.words_inj {f g : Form} {r s : List Word} (h : f.words ++ r = g.words ++ s) :
    f = g ∧ r = s := by
  have hwords : f.head = g.head ∧ f.argument = g.argument ∧ r = s := by
    simpa [words, Word.ofAtom_inj] using h
  obtain ⟨hhead, hargument, hrest⟩ := hwords
  exact ⟨eq_of_head hhead hargument, hrest⟩

theorem Form.head?_words (f : Form) (r : List Word) : (f.words ++ r).head? ≠ some .closing := by
  simp [words, Word.opening, Word.closing]

/-- The inputs of an operation go on as long as forms do. -/
theorem Expression.words_inj {e e' : Expression} {r s : List Word}
    (h : e.words ++ .closing :: r = e'.words ++ .closing :: s) : e = e' ∧ r = s := by
  cases e with
  | form f hf =>
      cases e' with
      | form g hg =>
          obtain ⟨rfl, hrest⟩ := Form.words_inj h
          exact ⟨rfl, (List.cons.inj hrest).2⟩
      | apply name inputs =>
          rw [words, words, List.append_assoc] at h
          obtain ⟨rfl, _⟩ := Form.words_inj h
          exact absurd hf (by simp [Form.isOperation])
  | apply name inputs =>
      rw [words, List.append_assoc] at h
      cases e' with
      | form g hg =>
          obtain ⟨rfl, _⟩ := Form.words_inj h
          exact absurd hg (by simp [Form.isOperation])
      | apply name' inputs' =>
          rw [words, List.append_assoc] at h
          obtain ⟨hname, hinputs⟩ := Form.words_inj h
          obtain ⟨rfl, hrest⟩ := flatMap_words_inj (fun _ _ _ _ => Form.words_inj)
            Form.head?_words hinputs
          exact ⟨by rw [Form.op.inj hname], hrest⟩

theorem Acting.text_inj {v v' : Acting} (h : v.text = v'.text) : v = v' := by
  cases v <;> cases v' <;> first | rfl | exact absurd h (by decide)

theorem Moving.text_inj {v v' : Moving} (h : v.text = v'.text) : v = v' := by
  cases v <;> cases v' <;> first | rfl | exact absurd h (by decide)

theorem Acting.text_ne_assign (v : Acting) : v.text ≠ "assign" := by
  cases v <;> decide

theorem Moving.text_ne_assign (v : Moving) : v.text ≠ "assign" := by
  cases v <;> decide

theorem Acting.text_ne_text (v : Acting) (v' : Moving) : v.text ≠ v'.text := by
  cases v <;> cases v' <;> decide

theorem Instruction.words_inj {i j : Instruction} {r s : List Word}
    (h : i.words ++ .closing :: r = j.words ++ .closing :: s) : i = j ∧ r = s := by
  obtain ⟨hhead, hoperands⟩ := List.cons.inj h
  have hverb : i.verb = j.verb := Word.ofAtom_inj.mp hhead
  cases i with
  | assign reg e =>
      cases j with
      | assign reg' e' =>
          obtain ⟨hreg, he⟩ := List.cons.inj hoperands
          obtain ⟨rfl, hrest⟩ := Expression.words_inj he
          exact ⟨by rw [Word.ofAtom_inj.mp hreg], hrest⟩
      | act v e' => exact absurd hverb.symm v.text_ne_assign
      | move v reg' => exact absurd hverb.symm v.text_ne_assign
  | act v e =>
      cases j with
      | assign reg' e' => exact absurd hverb v.text_ne_assign
      | act v' e' =>
          obtain rfl := Acting.text_inj hverb
          obtain ⟨rfl, hrest⟩ := Expression.words_inj hoperands
          exact ⟨rfl, hrest⟩
      | move v' reg' => exact absurd hverb (v.text_ne_text v')
  | move v reg =>
      cases j with
      | assign reg' e' => exact absurd hverb v.text_ne_assign
      | act v' e' => exact absurd hverb.symm (v'.text_ne_text v)
      | move v' reg' =>
          obtain rfl := Moving.text_inj hverb
          obtain ⟨hreg, hrest⟩ := List.cons.inj hoperands
          exact ⟨by rw [Word.ofAtom_inj.mp hreg], (List.cons.inj hrest).2⟩

theorem Item.words_inj {x y : Item} {r s : List Word} (h : x.words ++ r = y.words ++ s) :
    x = y ∧ r = s := by
  have hhead := congrArg List.head? h
  cases x with
  | label a =>
      cases y with
      | label b =>
          obtain ⟨ha, hrest⟩ := List.cons.inj h
          exact ⟨by rw [Word.ofAtom_inj.mp ha], hrest⟩
      | instruction j => exact absurd (Option.some.inj hhead) (by simp [Word.ofAtom, Word.opening])
  | instruction i =>
      cases y with
      | label b => exact absurd (Option.some.inj hhead) (by simp [Word.ofAtom, Word.opening])
      | instruction j =>
          have hbody : i.words ++ .closing :: r = j.words ++ .closing :: s := by
            simpa [words] using h
          obtain ⟨rfl, hrest⟩ := Instruction.words_inj hbody
          exact ⟨rfl, hrest⟩

theorem Item.head?_words (x : Item) (r : List Word) : (x.words ++ r).head? ≠ some .closing := by
  cases x <;> simp [words, Word.ofAtom, Word.opening, Word.closing]

/-- **A text is derived as a controller in one way at most.** -/
theorem Item.flatMap_words_injective : (List.flatMap Item.words).Injective := by
  intro xs ys h
  have hclosed := congrArg (· ++ [Word.closing]) h
  exact (flatMap_words_inj (fun _ _ _ _ => words_inj) head?_words hclosed).1

/-- Listings of trees end where their parentheses close. -/
theorem listing_inj {τ : Type} {words : τ → List Word}
    (hinj : ∀ x y r s, words x ++ r = words y ++ s → x = y ∧ r = s)
    (hfirst : ∀ x r, (words x ++ r).head? ≠ some .closing) {head : String} {xs ys : List τ}
    {r s : List Word}
    (h : listing head (xs.flatMap words) ++ r = listing head (ys.flatMap words) ++ s) :
    xs = ys ∧ r = s := by
  refine flatMap_words_inj hinj hfirst ?_
  simpa [listing] using h

theorem Machine.registersWords_inj (names names' : List String) (r s : List Word)
    (h : registersWords names ++ r = registersWords names' ++ s) : names = names' ∧ r = s := by
  refine listing_inj ?_ ?_ h
  · intro a b r s h
    exact ⟨Word.ofAtom_inj.mp (List.cons.inj h).1, (List.cons.inj h).2⟩
  · intro a r
    simp [Word.ofAtom, Word.closing]

theorem Machine.controllerWords_inj (items items' : List Item) (r s : List Word)
    (h : controllerWords items ++ r = controllerWords items' ++ s) : items = items' ∧ r = s :=
  listing_inj (fun _ _ _ _ => Item.words_inj) Item.head?_words h

theorem Machine.words_inj {m m' : Machine} {r s : List Word}
    (h : m.words ++ r = m'.words ++ s) : m = m' ∧ r = s := by
  obtain ⟨names, items⟩ := m
  obtain ⟨names', items'⟩ := m'
  have hparts : registersWords names ++ (controllerWords items ++ .closing :: r) =
      registersWords names' ++ (controllerWords items' ++ .closing :: s) := by
    simpa [words, listing] using h
  obtain ⟨rfl, hcontroller⟩ := registersWords_inj _ _ _ _ hparts
  obtain ⟨rfl, hrest⟩ := controllerWords_inj _ _ _ _ hcontroller
  exact ⟨rfl, (List.cons.inj hrest).2⟩

/-- **A text is derived as a machine in one way at most.** -/
theorem Machine.words_injective : Machine.words.Injective := by
  intro m m' h
  have hclosed := congrArg (· ++ []) h
  exact (words_inj hclosed).1

end Derivation

end RegisterMachine
