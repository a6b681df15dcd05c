import RegisterMachine.Reading.Error

/-!
# Reading tokens one by one

A cursor is a place among the tokens of a text. A `Reading` takes a cursor to an answer or an error
and to the cursor behind the last token it took, in both cases: after an error the cursor tells
where reading stopped, and reading may go on from there.

Looking at the next token takes nothing. Taking a token that can stand nowhere is an error whatever
was wanted. Repetition stops after a round that took no token, so it ends by the length of the rest;
every round used here takes one.
-/

namespace RegisterMachine

/-- Where a cursor stands. -/
inductive Cursor.Place where
  | start
  /-- Just behind this token. -/
  | after (t : Token)
  /-- Beyond the end of the text. -/
  | finish
deriving DecidableEq

structure Cursor where
  place : Cursor.Place
  /-- The tokens that are still to be read. -/
  rest : List Token
deriving DecidableEq

namespace Cursor

/-- The cursor before the first token of a text. -/
def ofSource (source : String) : Cursor := ⟨.start, Token.scan source⟩

/-- The token that was taken last, unless the end of the text was. -/
def current (c : Cursor) : Option Token :=
  match c.place with
  | .after t => some t
  | .start | .finish => none

/-- The byte behind which a cursor stands, in a text of the given size. -/
def byte (c : Cursor) (size : Nat) : Nat :=
  match c.place with
  | .start => 0
  | .after t => t.stop
  | .finish => size

/-- The kind of the next token. -/
def peek (c : Cursor) : Option Token.Kind := c.rest.head?.map Token.kind

/-- Takes the next token, or the end of the text. -/
def next (c : Cursor) : Option Token × Cursor :=
  match c.rest with
  | [] => (none, ⟨.finish, []⟩)
  | t :: rest => (some t, ⟨.after t, rest⟩)

end Cursor

/-- A reading of some tokens: an answer or an error, and the cursor behind what was taken. -/
def Reading (α : Type) : Type := Cursor → Except ReadError α × Cursor

namespace Reading

variable {α β : Type}

protected def pure (a : α) : Reading α := fun c => (.ok a, c)

def fail (e : ReadError) : Reading α := fun c => (.error e, c)

/-- Reads with `p`, then on with what its answer calls for. -/
protected def bind (p : Reading α) (f : α → Reading β) : Reading β := fun c =>
  match p c with
  | (.ok a, c') => f a c'
  | (.error e, c') => (.error e, c')

instance : Monad Reading where
  pure := Reading.pure
  bind := Reading.bind

/-- Takes the next token if there is one. -/
def next : Reading (Option Token) := fun c =>
  match c.next with
  | (some t, c') =>
    if t.kind = .unclosed then (.error (.badToken t.text), c') else (.ok (some t), c')
  | (none, c') => (.ok none, c')

/-- Takes the next token, which has to be there. -/
def token : Reading Token := do
  match ← next with
  | some t => pure t
  | none => fail .endOfText

/-- Takes a token of the expected kind. -/
def expect (e : Expectation) : Reading Token := do
  let t ← token
  if some t.kind = e.kind then pure t else fail (.unexpected e t.kind t.text)

/-- Takes the end of the text. -/
def expectEnd : Reading Unit := do
  match ← next with
  | some t => fail (.unexpected .nothingMore t.kind t.text)
  | none => pure ()

/-- Takes an atom and answers its text. -/
def atom (e : Expectation) : Reading String := do
  let t ← expect e
  pure t.text

/-- Takes the given word. -/
def keyword (word : String) : Reading Unit := do
  let a ← atom .keyword
  if a = word then pure () else fail (.unknownForm a)

/-- Reads with `p` for as long as the next token is of a kind that asks for it. -/
def repeatWhile (more : Option Token.Kind → Bool) (p : Reading α) (c : Cursor) :
    Except ReadError (List α) × Cursor :=
  if more c.peek then
    match p c with
    | (.error e, c') => (.error e, c')
    | (.ok a, c') =>
      if _shorter : c'.rest.length < c.rest.length then
        match repeatWhile more p c' with
        | (.ok as, c'') => (.ok (a :: as), c'')
        | (.error e, c'') => (.error e, c'')
      else (.ok [a], c')
  else (.ok [], c)
termination_by c.rest.length

end Reading

end RegisterMachine
