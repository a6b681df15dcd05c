import RegisterMachine.Operation.Basic

/-!
# Why an instruction fails
-/

namespace RegisterMachine

inductive Fault where
  /-- Nothing to restore. -/
  | emptyStack
  /-- The operation of this name answered an error. -/
  | operation (name : String) (error : OperationError)
  /-- A jump to a value that is no position within the program or at its end. -/
  | badJump (target : Value)
deriving DecidableEq

namespace Fault

/-- The complaint about a value that was to be jumped to. -/
def badJumpMessage (v : Value) : String :=
  "cannot jump to " ++ v.text ++ " (" ++ v.kind ++ "), expected a position"

def message : Fault → String
  | emptyStack => "empty stack -- pop"
  | operation name error => "operation \x60" ++ name ++ "\x60 failed: " ++ error.message
  | badJump target => badJumpMessage target

end Fault

end RegisterMachine
