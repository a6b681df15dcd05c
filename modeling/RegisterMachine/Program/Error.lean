import RegisterMachine.Controller.Text

/-!
# Why a machine cannot be put together

The errors of putting a machine together: names that stand for nothing, instructions of a shape that
means nothing, registers allocated twice, and changes that come too late.
-/

namespace RegisterMachine

/-- What is wrong with the shape of an instruction. -/
inductive Malformation where
  | counterTarget
  | testCondition
  | branchTarget
  | gotoTarget
  | performAction
  | nestedOperation
deriving DecidableEq

def Malformation.text : Malformation → String
  | counterTarget => "pc can only be changed by branch and goto"
  | testCondition => "test condition must be an operation"
  | branchTarget => "branch target must be a label"
  | gotoTarget => "goto target must be a label or a register"
  | performAction => "perform action must be an operation"
  | nestedOperation => "operation inputs cannot be operations"

inductive ConfigError where
  | unknownRegister (name : String) (verb : Verb)
  | unknownLabel (name : String) (verb : Verb)
  | unknownOperation (name : String) (verb : Verb)
  | malformed (instruction : Instruction) (why : Malformation)
  | duplicateRegister (name : String)
  /-- A register was to be set that the machine does not have. -/
  | noSuchRegister (name : String)
  /-- The machine has been started. -/
  | frozen

def ConfigError.message : ConfigError → String
  | unknownRegister name verb =>
    "unknown register \x60" ++ name ++ "\x60 in " ++ verb.text ++ " instruction"
  | unknownLabel name verb =>
    "undefined label \x60" ++ name ++ "\x60 in " ++ verb.text ++ " instruction"
  | unknownOperation name verb =>
    "unknown operation \x60" ++ name ++ "\x60 in " ++ verb.text ++ " instruction"
  | malformed instruction why => "bad instruction " ++ instruction.text ++ ": " ++ why.text
  | duplicateRegister name => "multiply defined register \x60" ++ name ++ "\x60"
  | noSuchRegister name => "unknown register \x60" ++ name ++ "\x60"
  | frozen => "machine has already been started"

end RegisterMachine
