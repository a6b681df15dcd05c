/-!
# Tokens of source text

Source text is cut into *pieces* without losing a character: parentheses, atoms, strings, and the
blanks and comments between them. Tokens are the pieces that matter, each with its place in the
text. A quote that is never closed makes a token of its own, which runs to the end of the text and
which no reader accepts.

Only the five ASCII blanks separate atoms. A string runs to the next quote; there are no escapes.
-/

namespace RegisterMachine

inductive Token.Kind where
  | leftParen
  | rightParen
  | atom
  | string
  /-- From a quote that is never closed to the end of the text. -/
  | unclosed
deriving DecidableEq, Inhabited

/-- A token with its text and the places, counted in bytes, where it starts and stops. -/
structure Token where
  kind : Token.Kind
  text : String
  start : Nat
  stop : Nat
deriving DecidableEq, Inhabited

namespace Token

/-- A stretch of source text: a token's text, or a gap if it has no kind. -/
structure Piece where
  kind : Option Kind
  chars : List Char
deriving DecidableEq

/-! ## Cutting text into pieces -/

/-- The characters that separate tokens and belong to none. -/
def isGap (c : Char) : Bool := c = ' ' || c = '\t' || c = '\r' || c = '\n' || c = '\x0c'

/-- The characters that atoms are made of. -/
def isAtomic (c : Char) : Bool :=
  !isGap c && !(c = '(' || c = ')' || c = '"' || c = ';')

/-- The piece at the head of a text that begins with `c`, and the text after it. -/
def firstPiece (c : Char) (cs : List Char) : Piece × List Char :=
  if isGap c then (⟨none, c :: cs.takeWhile isGap⟩, cs.dropWhile isGap)
  else if c = ';' then (⟨none, c :: cs.takeWhile (· ≠ '\n')⟩, cs.dropWhile (· ≠ '\n'))
  else if c = '(' then (⟨some .leftParen, [c]⟩, cs)
  else if c = ')' then (⟨some .rightParen, [c]⟩, cs)
  else if c = '"' then
    let body := cs.takeWhile (· ≠ '"')
    match cs.dropWhile (· ≠ '"') with
    | [] => (⟨some .unclosed, c :: body⟩, [])
    | q :: rest => (⟨some .string, c :: body ++ [q]⟩, rest)
  else (⟨some .atom, c :: cs.takeWhile isAtomic⟩, cs.dropWhile isAtomic)

/-- The rest of a text after a stretch of one kind is no longer than the text. -/
theorem length_dropWhile_le (p : Char → Bool) (cs : List Char) :
    (cs.dropWhile p).length ≤ cs.length :=
  (List.dropWhile_suffix p).length_le

/-- What follows the first piece is shorter than the text. -/
theorem length_firstPiece_le (c : Char) (cs : List Char) :
    (firstPiece c cs).2.length ≤ cs.length := by
  unfold firstPiece
  split
  · exact length_dropWhile_le ..
  · split
    · exact length_dropWhile_le ..
    · split
      · exact Nat.le_refl _
      · split
        · exact Nat.le_refl _
        · split
          · have h := length_dropWhile_le (· ≠ '"') cs
            split
            · exact Nat.zero_le _
            · next hq => rw [hq] at h; exact Nat.le_of_succ_le h
          · exact length_dropWhile_le ..

/-- The pieces of a text, one after the other. -/
def pieces : List Char → List Piece
  | [] => []
  | c :: cs =>
    let p := firstPiece c cs
    p.1 :: pieces p.2
termination_by cs => cs.length
decreasing_by exact Nat.lt_succ_of_le (length_firstPiece_le c cs)

/-- The first piece and what follows it make up the text. -/
theorem chars_firstPiece_append (c : Char) (cs : List Char) :
    (firstPiece c cs).1.chars ++ (firstPiece c cs).2 = c :: cs := by
  unfold firstPiece
  split
  · simp
  · split
    · simp
    · split
      · rfl
      · split
        · rfl
        · split
          · have h := List.takeWhile_append_dropWhile (p := (· ≠ '"')) (l := cs)
            split
            · next hq => rw [hq] at h; simpa using h
            · next hq => rw [hq] at h; simpa using h
          · simp

/-! ## Placing the tokens -/

/-- The number of bytes that a text takes. -/
def byteSize (cs : List Char) : Nat := cs.foldl (fun n c => n + c.utf8Size) 0

/-- The tokens among the pieces of a text that begins at the given byte. -/
def place (start : Nat) : List Piece → List Token
  | [] => []
  | ⟨kind, chars⟩ :: rest =>
    let stop := start + byteSize chars
    match kind with
    | none => place stop rest
    | some k => ⟨k, String.ofList chars, start, stop⟩ :: place stop rest

/-- The tokens of a source text, in order. -/
def scan (source : String) : List Token := place 0 (pieces source.toList)

end Token

end RegisterMachine
