import RegisterMachine.Controller.Basic
import RegisterMachine.Image.Error

/-!
# Images

An image is a machine description in bytes: a header of two lines, the declaration and the version,
and then the description field by field. Numbers are written from the low byte up. A length, a
position and a double take eight bytes, the index of an alternative four, a truth value one. A text
is the length of its bytes and the bytes, a list the number of its members and the members.

Lengths and positions have to be below `2 ^ 64`; a description is only written if they are.
-/

namespace RegisterMachine.Image

/-- The lowest bytes of a number, from the low one up. -/
def word : Nat → Nat → Bytes
  | 0, _ => []
  | width + 1, n => UInt8.ofNat n :: word width (n / 256)

/-- A length or a position. -/
def length (n : Nat) : Bytes := word 8 n

/-- The index of an alternative. -/
def variant (index : Nat) : Bytes := word 4 index

def text (s : String) : Bytes :=
  let bytes := Utf8.encode s
  length bytes.length ++ bytes

def value : Value → Bytes
  | .unassigned => variant 0
  | .number n => variant 1 ++ word 8 n.bits.toNat
  | .bool b => variant 2 ++ [if b then 1 else 0]
  | .symbol s => variant 3 ++ text s
  | .position k => variant 4 ++ length k

mutual

def expr : Expr → Bytes
  | .const v => variant 0 ++ value v
  | .reg name => variant 1 ++ text name
  | .label name => variant 2 ++ text name
  | .op name inputs => variant 3 ++ (text name ++ (length inputs.length ++ exprs inputs))

/-- Expressions one after the other, without their number. -/
def exprs : List Expr → Bytes
  | [] => []
  | e :: es => expr e ++ exprs es

end

def instruction : Instruction → Bytes
  | .assign reg source => variant 0 ++ (text reg ++ expr source)
  | .test e => variant 1 ++ expr e
  | .branch e => variant 2 ++ expr e
  | .goto e => variant 3 ++ expr e
  | .save reg => variant 4 ++ text reg
  | .restore reg => variant 5 ++ text reg
  | .perform e => variant 6 ++ expr e

def item : Item → Bytes
  | .label name => variant 0 ++ text name
  | .instruction i => variant 1 ++ instruction i

/-- A list: the number of its members, and the members. -/
def list {α : Type} (member : α → Bytes) (xs : List α) : Bytes :=
  length xs.length ++ xs.flatMap member

/-- A description behind its header. -/
def payload (d : Description) : Bytes := list text d.registers ++ list item d.controller

/-! ## The header -/

/-- The word that every image begins with. -/
def mark : Bytes := Utf8.encode "REGMACHIMAGE"

/-- The line that declares an image. -/
def declaration : Bytes := mark ++ Utf8.encode "\n"

/-- The declaration and the line with the version of the format. -/
def header : Bytes := declaration ++ Utf8.encode "0.1.0\n"

/-- Whether bytes begin like an image and not like source text. -/
def isImage (bs : Bytes) : Bool := mark.isPrefixOf bs

/-! ## What fits -/

/-- A number that eight bytes hold. -/
def fitsWord (n : Nat) : Bool := n < 1 <<< 64

def textFits (s : String) : Bool := fitsWord (Utf8.encode s).length

def valueFits : Value → Bool
  | .symbol s => textFits s
  | .position k => fitsWord k
  | .unassigned | .number _ | .bool _ => true

mutual

def exprFits : Expr → Bool
  | .const v => valueFits v
  | .reg name | .label name => textFits name
  | .op name inputs => textFits name && fitsWord inputs.length && exprsFit inputs

def exprsFit : List Expr → Bool
  | [] => true
  | e :: es => exprFits e && exprsFit es

end

def instructionFits : Instruction → Bool
  | .assign reg source => textFits reg && exprFits source
  | .test e | .branch e | .goto e | .perform e => exprFits e
  | .save reg | .restore reg => textFits reg

def itemFits : Item → Bool
  | .label name => textFits name
  | .instruction i => instructionFits i

/-- Whether every length and position in a description fits the format. -/
def fits (d : Description) : Bool :=
  fitsWord d.registers.length && d.registers.all textFits &&
    (fitsWord d.controller.length && d.controller.all itemFits)

/-- The image of a description. -/
def encode (d : Description) : Except ImageError Bytes :=
  if fits d then .ok (header ++ payload d) else .error .tooLarge

end RegisterMachine.Image
