import RegisterMachine.Image.Encode

/-!
# Reading images

Each part of an image is read from the front of the bytes, and reading goes on with the bytes behind
it. What is read is exactly what would be written, down to the one spelling of a truth value and of
an alternative; bytes behind the last part are not looked at. The length of a list is taken at its
word: its members are read until one is missing.
-/

namespace RegisterMachine.Image

/-- A reading of bytes: an answer with the bytes behind it, or an error. -/
def Decoder (α : Type) : Type := Bytes → Except PayloadError (α × Bytes)

namespace Decoder

variable {α β : Type}

protected def pure (a : α) : Decoder α := fun bs => .ok (a, bs)

def fail (e : PayloadError) : Decoder α := fun _ => .error e

/-- Reads with `d`, and on with what its answer calls for. -/
protected def bind (d : Decoder α) (f : α → Decoder β) : Decoder β := fun bs =>
  match d bs with
  | .ok (a, rest) => f a rest
  | .error e => .error e

instance : Monad Decoder where
  pure := Decoder.pure
  bind := Decoder.bind

/-- Reads a number of the given width. -/
def word : Nat → Decoder Nat
  | 0 => pure 0
  | width + 1 => fun bs =>
    match bs with
    | [] => .error .endOfBytes
    | b :: rest => (do let high ← word width; pure (b.toNat + 256 * high) : Decoder Nat) rest

/-- Reads a length or a position. -/
def length : Decoder Nat := word 8

/-- Reads the index of one of `count` alternatives. -/
def variant (count : Nat) : Decoder (Fin count) := do
  let index ← word 4
  if h : index < count then pure ⟨index, h⟩ else fail (.badVariant index count)

/-- Takes so many bytes of a text. -/
def take (n : Nat) : Decoder Bytes := fun bs =>
  if n ≤ bs.length then .ok (bs.take n, bs.drop n) else .error .endOfText

def text : Decoder String := do
  let n ← length
  let bytes ← take n
  match Utf8.decode bytes with
  | .ok s => pure s
  | .error fault => fail (.badText fault)

def bool : Decoder Bool := do
  match ← word 1 with
  | 0 => pure false
  | 1 => pure true
  | byte => fail (.badBool byte)

/-- Reads so many members one after the other. -/
def times (member : Decoder α) : Nat → Decoder (List α)
  | 0 => pure []
  | n + 1 => do
    let a ← member
    let as ← times member n
    pure (a :: as)

/-- Reads a list: the number of its members, and the members. -/
def list (member : Decoder α) : Decoder (List α) := do
  let n ← length
  times member n

def value : Decoder Value := do
  match ← variant 5 with
  | 0 => pure .unassigned
  | 1 => do let n ← word 8; pure (.number ⟨UInt64.ofNat n⟩)
  | 2 => do let b ← bool; pure (.bool b)
  | 3 => do let s ← text; pure (.symbol s)
  | 4 => do let k ← length; pure (.position k)

/-- Reads an expression that nests no deeper than `depth`. Every level takes bytes of its own, so
the number of bytes is depth enough. -/
def exprWithin : Nat → Decoder Expr
  | 0 => fail .endOfBytes
  | depth + 1 => do
    match ← variant 4 with
    | 0 => do let v ← value; pure (.const v)
    | 1 => do let name ← text; pure (.reg name)
    | 2 => do let name ← text; pure (.label name)
    | 3 => do
      let name ← text
      let inputs ← list (exprWithin depth)
      pure (.op name inputs)

def expr : Decoder Expr := fun bs => exprWithin (bs.length + 1) bs

def instruction : Decoder Instruction := do
  match ← variant 7 with
  | 0 => do let reg ← text; let source ← expr; pure (.assign reg source)
  | 1 => do let e ← expr; pure (.test e)
  | 2 => do let e ← expr; pure (.branch e)
  | 3 => do let e ← expr; pure (.goto e)
  | 4 => do let reg ← text; pure (.save reg)
  | 5 => do let reg ← text; pure (.restore reg)
  | 6 => do let e ← expr; pure (.perform e)

def item : Decoder Item := do
  match ← variant 2 with
  | 0 => do let name ← text; pure (.label name)
  | 1 => do let i ← instruction; pure (.instruction i)

/-- Reads a description behind its header. -/
def payload : Decoder Description := do
  let registers ← list text
  let controller ← list item
  pure ⟨registers, controller⟩

end Decoder

/-- The description that an image holds. -/
def decode (bs : Bytes) : Except ImageError Description :=
  if !declaration.isPrefixOf bs then .error .noDeclaration
  else if !header.isPrefixOf bs then .error .otherVersion
  else match Decoder.payload (bs.drop header.length) with
    | .ok (d, _) => .ok d
    | .error e => .error (.payload e)

end RegisterMachine.Image
