import RegisterMachine.Value.Basic

/-!
# Controllers

A controller is a flat sequence of labels and instructions. Together with the names of the registers
it uses it makes up the description of a machine, the thing that is read from source text and kept
in images. Instructions name registers, labels and operations; what the names stand for is settled
when a program is made of them.

An expression may be anything anywhere here, operations within operations included. Which
expressions an instruction accepts is decided with the names, so that a rejected instruction can
still be shown whole.
-/

namespace RegisterMachine

/-- The input of an instruction or of an operation. -/
inductive Expr where
  | const (value : Value)
  | reg (name : String)
  | label (name : String)
  | op (name : String) (inputs : List Expr)
deriving Inhabited

inductive Instruction where
  | assign (reg : String) (source : Expr)
  | test (condition : Expr)
  | branch (target : Expr)
  | goto (target : Expr)
  | save (reg : String)
  | restore (reg : String)
  | perform (action : Expr)
deriving Inhabited

/-- The word an instruction begins with. -/
inductive Verb where
  | assign | test | branch | goto | save | restore | perform
deriving DecidableEq

def Verb.text : Verb → String
  | assign => "assign"
  | test => "test"
  | branch => "branch"
  | goto => "goto"
  | save => "save"
  | restore => "restore"
  | perform => "perform"

def Instruction.verb : Instruction → Verb
  | assign .. => .assign
  | test _ => .test
  | branch _ => .branch
  | goto _ => .goto
  | save _ => .save
  | restore _ => .restore
  | perform _ => .perform

/-- One line of a controller: a label, or an instruction. -/
inductive Item where
  | label (name : String)
  | instruction (i : Instruction)
deriving Inhabited

/-- The parts of a machine that can be written down. -/
structure Description where
  registers : List String
  controller : List Item
deriving Inhabited

/-! ## Sameness

As for values there is a sameness that a reader of the printed text would accept: the two zeros are
the same constant, and a constant that is no number is not the same as itself. -/

mutual

def Expr.same : Expr → Expr → Bool
  | .const v, .const w => v.same w
  | .reg a, .reg b => a == b
  | .label a, .label b => a == b
  | .op a xs, .op b ys => a == b && Expr.allSame xs ys
  | _, _ => false

/-- Whether two lists of inputs are the same one by one. -/
def Expr.allSame : List Expr → List Expr → Bool
  | [], [] => true
  | x :: xs, y :: ys => x.same y && Expr.allSame xs ys
  | _, _ => false

end

def Instruction.same : Instruction → Instruction → Bool
  | assign a x, assign b y => a == b && x.same y
  | test x, test y => x.same y
  | branch x, branch y => x.same y
  | goto x, goto y => x.same y
  | save a, save b => a == b
  | restore a, restore b => a == b
  | perform x, perform y => x.same y
  | _, _ => false

def Item.same : Item → Item → Bool
  | label a, label b => a == b
  | instruction i, instruction j => i.same j
  | _, _ => false

/-- Whether two controllers are the same line by line. -/
def Item.allSame : List Item → List Item → Bool
  | [], [] => true
  | x :: xs, y :: ys => x.same y && Item.allSame xs ys
  | _, _ => false

def Description.same (a b : Description) : Bool :=
  a.registers == b.registers && Item.allSame a.controller b.controller

end RegisterMachine
