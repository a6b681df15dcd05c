import RegisterMachine.Controller.Basic
import RegisterMachine.Value.Text

/-!
# The text of controllers

Instructions are printed as they are written in source text, on one line and with single blanks.
Names are printed as they are, so the text of an instruction is source text again exactly if its
names are atoms and its constants print as readable text.
-/

namespace RegisterMachine

mutual

def Expr.text : Expr → String
  | .const v => "(const " ++ v.text ++ ")"
  | .reg name => "(reg " ++ name ++ ")"
  | .label name => "(label " ++ name ++ ")"
  | .op name inputs => "(op " ++ name ++ ")" ++ Expr.inputsText inputs

/-- The inputs of an operation, each behind a blank. -/
def Expr.inputsText : List Expr → String
  | [] => ""
  | x :: xs => " " ++ x.text ++ Expr.inputsText xs

end

def Instruction.text (i : Instruction) : String :=
  let body := match i with
    | assign reg source => reg ++ " " ++ source.text
    | test e | branch e | goto e | perform e => e.text
    | save reg | restore reg => reg
  "(" ++ i.verb.text ++ " " ++ body ++ ")"

def Item.text : Item → String
  | label name => name
  | instruction i => i.text

/-- A controller with one line of text for each of its lines. -/
def Item.linesText (items : List Item) : String :=
  String.intercalate "\n" (items.map Item.text)

end RegisterMachine
