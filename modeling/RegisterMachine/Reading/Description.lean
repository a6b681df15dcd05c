import RegisterMachine.Controller.Basic
import RegisterMachine.Reading.Cursor
import RegisterMachine.Value.Text

/-!
# Reading machine descriptions

The grammar of source text, one reading for each of its forms:

    machine     = ( machine ( registers ATOM* ) ( controller item* ) )
    item        = ATOM | ( instruction )
    instruction = assign ATOM expression | save ATOM | restore ATOM
                | test expression | branch expression | goto expression | go_to expression
                | perform expression
    expression  = form | ( op ATOM ) form*
    form        = ( const ATOM ) | ( const STRING ) | ( reg ATOM ) | ( label ATOM ) | ( op ATOM )

An operation among the inputs of another is read, without inputs of its own; it is for the program
to reject it. Every form is decided by the tokens read so far and the next one, so nothing is ever
read twice.
-/

namespace RegisterMachine.Reading

/-- The symbol in a string token: the text between its quotes. -/
def unquote (s : String) : String := String.ofList ((s.toList.drop 1).dropLast)

/-- Reads a constant: an atom, or a string. -/
def constant : Reading Value := do
  let t ← token
  match t.kind with
  | .atom => pure (.ofAtom t.text)
  | .string => pure (.symbol (unquote t.text))
  | _ => fail (.unexpected .constant t.kind t.text)

/-- Reads one parenthesised form. An operation has no inputs yet. -/
def form : Reading Expr := do
  let _ ← expect .expressionOpening
  let head ← atom .expressionHead
  let e ←
    if head = "const" then do let v ← constant; pure (Expr.const v)
    else if head = "reg" then do let a ← atom .registerName; pure (Expr.reg a)
    else if head = "label" then do let a ← atom .labelName; pure (Expr.label a)
    else if head = "op" then do let a ← atom .operationName; pure (Expr.op a [])
    else fail (.unknownForm head)
  let _ ← expect .expressionClosing
  pure e

/-- Reads a form and, behind an operation, the forms that are its inputs. -/
def expression : Reading Expr := do
  match ← form with
  | .op name _ => do
    let inputs ← repeatWhile (· = some .leftParen) form
    pure (.op name inputs)
  | e => pure e

/-- Reads an instruction behind its opening parenthesis. -/
def instruction : Reading Instruction := do
  let head ← atom .verb
  let i ←
    if head = "assign" then do
      let r ← atom .assignTarget
      let e ← expression
      pure (Instruction.assign r e)
    else if head = "test" then do let e ← expression; pure (Instruction.test e)
    else if head = "perform" then do let e ← expression; pure (Instruction.perform e)
    else if head = "branch" then do let e ← expression; pure (Instruction.branch e)
    else if head = "goto" ∨ head = "go_to" then do let e ← expression; pure (Instruction.goto e)
    else if head = "save" then do let r ← atom .saveTarget; pure (Instruction.save r)
    else if head = "restore" then do let r ← atom .restoreTarget; pure (Instruction.restore r)
    else fail (.unknownForm head)
  let _ ← expect .instructionClosing
  pure i

/-- Reads a line of a controller. Where the text ends instead, nothing is taken. -/
def item : Reading Item := fun c =>
  match c.peek with
  | some .atom => (do let a ← atom .label; pure (Item.label a) : Reading Item) c
  | some .leftParen =>
    (do let _ ← token; let i ← instruction; pure (Item.instruction i) : Reading Item) c
  | some _ => (do let t ← token; fail (.badToken t.text) : Reading Item) c
  | none => fail .endOfText c

/-- Reads the names of the registers, their parentheses included. -/
def registers : Reading (List String) := do
  let _ ← expect .registersOpening
  keyword "registers"
  let names ← repeatWhile (· ≠ some .rightParen) (atom .registerName)
  let _ ← token
  pure names

/-- Reads the lines of the controller, its parentheses included. -/
def controller : Reading (List Item) := do
  let _ ← expect .controllerOpening
  keyword "controller"
  let items ← repeatWhile (· ≠ some .rightParen) item
  let _ ← token
  pure items

/-- Reads a whole machine description. -/
def description : Reading Description := do
  let _ ← expect .machineOpening
  keyword "machine"
  let names ← registers
  let items ← controller
  let _ ← expect .machineClosing
  expectEnd
  pure ⟨names, items⟩

/-- Reads controller lines to the end of the text. -/
def items : Reading (List Item) := repeatWhile Option.isSome item

end RegisterMachine.Reading

namespace RegisterMachine

/-- The machine that a source text describes. -/
def Description.ofSource (source : String) : Except ReadError Description :=
  (Reading.description (.ofSource source)).1

/-- The controller that a source text without a machine around it spells out. -/
def Item.listOfSource (source : String) : Except ReadError (List Item) :=
  (Reading.items (.ofSource source)).1

end RegisterMachine
