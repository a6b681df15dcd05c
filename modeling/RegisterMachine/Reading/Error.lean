import RegisterMachine.Token.Basic

/-!
# Why a text is no machine description

Reading stops at the first token after which nothing could make the text readable. The error says
what was expected there, or that the text ended.
-/

namespace RegisterMachine

/-- What a reader may require of the next token. -/
inductive Expectation where
  | machineOpening
  | keyword
  | machineClosing
  | nothingMore
  | registersOpening
  | registerName
  | controllerOpening
  | label
  | verb
  | assignTarget
  | saveTarget
  | restoreTarget
  | instructionClosing
  | expressionOpening
  | expressionHead
  | labelName
  | operationName
  | expressionClosing
  | constant
deriving DecidableEq

namespace Expectation

/-- The kind of token that meets an expectation; `none` is met by the end of the text alone. -/
def kind : Expectation → Option Token.Kind
  | machineOpening | registersOpening | controllerOpening | expressionOpening => some .leftParen
  | machineClosing | instructionClosing | expressionClosing => some .rightParen
  | nothingMore => none
  | keyword | registerName | label | verb | assignTarget | saveTarget | restoreTarget
  | expressionHead | labelName | operationName | constant => some .atom

def text : Expectation → String
  | machineOpening => "Expected '(' to open machine"
  | keyword => "Expected a keyword"
  | machineClosing => "Expected ')' to close machine"
  | nothingMore => "Expected end of input after machine"
  | registersOpening => "Expected '(registers ...)'"
  | registerName => "Expected a register name"
  | controllerOpening => "Expected '(controller ...)'"
  | label => "Expected a label"
  | verb => "Expected an instruction name"
  | assignTarget => "Expected a register name after 'assign'"
  | saveTarget => "Expected a register name after 'save'"
  | restoreTarget => "Expected a register name after 'restore'"
  | instructionClosing => "Expected ')' after instruction"
  | expressionOpening => "Expected '(' to open an expression"
  | expressionHead => "Expected 'const', 'reg', 'label' or 'op'"
  | labelName => "Expected a label name"
  | operationName => "Expected an operation name"
  | expressionClosing => "Expected ')' after expression"
  | constant => "Expected a constant"

end Expectation

inductive ReadError where
  /-- A token of another kind than the one expected. Where it stands is no part of the error. -/
  | unexpected (wanted : Expectation) (got : Token.Kind) (text : String)
  /-- An atom that heads no form at its place. -/
  | unknownForm (head : String)
  /-- A token that can stand nowhere, or not as a line of a controller. -/
  | badToken (text : String)
  /-- The text ended where more was needed. -/
  | endOfText
deriving DecidableEq

namespace ReadError

/-- A kind of token as messages show it. -/
def kindText : Token.Kind → String
  | .leftParen => "LeftParen"
  | .rightParen => "RightParen"
  | .atom => "Atom"
  | .string => "Str"
  | .unclosed => "Error"

/-- A kind of token, or the end of the text, as messages show it. -/
def kindText? : Option Token.Kind → String
  | some k => "Some(" ++ kindText k ++ ")"
  | none => "None"

def message : ReadError → String
  | unexpected wanted got text =>
    wanted.text ++ " (expected " ++ kindText? wanted.kind ++ "; got " ++ kindText? (some got) ++
      " \x60" ++ text ++ "\x60)"
  | unknownForm head => "unknown form \x60" ++ head ++ "\x60"
  | badToken text => "unexpected input \x60" ++ text ++ "\x60"
  | endOfText => "unexpected end of input"

end ReadError

end RegisterMachine
