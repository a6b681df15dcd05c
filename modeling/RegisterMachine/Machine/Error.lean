import RegisterMachine.Controller.Text
import RegisterMachine.State.Fault

/-!
# Why a run fails

The fault of an instruction is reported together with the instruction and its position. A run can
also end in error between two instructions, or not begin at all.
-/

namespace RegisterMachine

inductive RunError where
  | instruction (position : Nat) (i : Instruction) (fault : Fault)
  /-- The counter holds no position. -/
  | badCounter (content : Value)
  | stepLimit (limit : Nat)
  /-- The program ended with this many values on the stack, where it had to leave none. -/
  | unbalanced (depth : Nat)
  | noProgram
  | alreadyStarted

def RunError.message : RunError → String
  | instruction position i fault =>
    fault.message ++ " (at " ++ toString position ++ ": " ++ i.text ++ ")"
  | badCounter content => Fault.badJumpMessage content
  | stepLimit limit => "step limit of " ++ toString limit ++ " instructions exceeded"
  | unbalanced depth => "halted with " ++ toString depth ++ " value(s) left on the stack"
  | noProgram => "no instruction sequence installed"
  | alreadyStarted => "machine has already been started"

end RegisterMachine
