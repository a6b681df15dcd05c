import RegisterMachine.Image.Decode
import RegisterMachine.Machine.Basic
import RegisterMachine.Operation.Standard
import RegisterMachine.Reading.Description

/-!
# From source text to a running machine

The stages between a text or an image and the end of a run, and the failures that each can end in.
-/

namespace RegisterMachine

/-- A failure of some stage. -/
inductive Failure where
  | reading (e : ReadError)
  | configuring (e : ConfigError)
  | running (e : RunError)
  | image (e : ImageError)

def Failure.message : Failure → String
  | reading e => "read error: " ++ e.message
  | configuring e => "configuration error: " ++ e.message
  | running e => "runtime error: " ++ e.message
  | image e => "image error: " ++ e.message

namespace Description

/-- The machine described, with the standard operations. -/
def buildStandard (d : Description) (settings : Settings) : Except ConfigError Machine :=
  d.build Standard.bindings settings

/-- The requests for the machine described, with the standard operations, and for these contents of
its registers. -/
def standardRequests (d : Description) (sets : List (String × Value)) : List Request :=
  d.requests Standard.bindings ++ sets.map fun (register, v) => .set register v

/-- The machine described, with the standard operations and these contents of its registers,
started. -/
def launch (d : Description) (sets : List (String × Value)) (settings : Settings) :
    Except Failure Machine :=
  match (Machine.new settings).applyAll (d.standardRequests sets) with
  | .error e => .error (.configuring e)
  | .ok m =>
    match m.start with
    | .error e => .error (.running e)
    | .ok m => .ok m

end Description

end RegisterMachine
