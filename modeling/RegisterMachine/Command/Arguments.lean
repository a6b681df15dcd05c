import RegisterMachine.Command.Error

/-!
# The command line

A command and its file, and behind `run` any number of options. The options are read to the end
before the file is looked at, so a mistake in them is told first.
-/

namespace RegisterMachine

/-- What `run` was told beside the file. -/
structure RunOptions where
  settings : Settings
  /-- Show the counter among the registers at the end. -/
  showCounter : Bool
  /-- Contents of registers, in the order they were given. -/
  sets : List (String × Value)

inductive Command where
  | build (file : String)
  | check (file : String)
  | run (file : String) (options : RunOptions)

namespace Command

/-- Reads a step limit: decimal digits, perhaps behind a plus, for a number below `2 ^ 64`. -/
def readLimit (s : String) : Option Nat :=
  let digits := match s.toList with
    | '+' :: cs => cs
    | cs => cs
  if digits ≠ [] ∧ digits.all Char.isDigit then
    let n := Number.digitsValue digits
    if n < 1 <<< 64 then some n else none
  else none

/-- Reads the setting of a register, `name=value`. The name ends before the first `=`. -/
def readSetting (s : String) : Option (String × Value) :=
  match s.toList.dropWhile (· ≠ '=') with
  | [] => none
  | _ :: value =>
    some (String.ofList (s.toList.takeWhile (· ≠ '=')), Value.ofSetting (String.ofList value))

/-- Reads options and adds them to those there are. -/
def readOptions (o : RunOptions) : List String → Except CommandError RunOptions
  | [] => .ok o
  | "--trace" :: rest => readOptions { o with showCounter := true } rest
  | "--balanced" :: rest =>
    readOptions { o with settings := { o.settings with balanced := true } } rest
  | "--limit" :: rest =>
    match rest with
    | [] => .error .missingArgument
    | n :: rest =>
      match readLimit n with
      | some limit =>
        readOptions { o with settings := { o.settings with stepLimit := some limit } } rest
      | none => .error (.badValue "--limit" n)
  | "--set" :: rest =>
    match rest with
    | [] => .error .missingArgument
    | s :: rest =>
      match readSetting s with
      | some setting => readOptions { o with sets := o.sets ++ [setting] } rest
      | none => .error (.badValue "--set" s)
  | argument :: _ => .error (.unknownArgument argument)

/-- Reads a command line. Whatever follows the file of `build` or `check` is ignored. -/
def ofArguments : List String → Except CommandError Command
  | [] => .error .missingArgument
  | "build" :: rest =>
    match rest with
    | [] => .error .missingArgument
    | file :: _ => .ok (.build file)
  | "check" :: rest =>
    match rest with
    | [] => .error .missingArgument
    | file :: _ => .ok (.check file)
  | "run" :: rest =>
    match rest with
    | [] => .error .missingArgument
    | file :: rest => (readOptions ⟨.default, false, []⟩ rest).map (.run file)
  | argument :: _ => .error (.unknownArgument argument)

end Command

end RegisterMachine
