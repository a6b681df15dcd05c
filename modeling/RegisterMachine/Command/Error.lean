import RegisterMachine.Machine.Launch

/-!
# Why a command fails
-/

namespace RegisterMachine

inductive CommandError where
  | failure (f : Failure)
  /-- A source file is no text. -/
  | badText (fault : Utf8.Fault)
  | unknownArgument (argument : String)
  | badValue (flag value : String)
  | missingArgument
  | notFound (file : String)

namespace CommandError

/-- How the program is called. -/
def usage : String := String.intercalate "\n"
  [ "usage:",
    "  regmach build <file.rm>                  write <file>.rmc",
    "  regmach check <file>                     assemble without running",
    "  regmach run <file> [options]             run a source file or image",
    "options:",
    "  --trace                                  log every executed instruction",
    "  --limit <n>                              stop after <n> instructions",
    "  --balanced                               fail if the stack is not empty at halt",
    "  --set <register>=<value>                 initialise a register before starting" ]

/-- The name of the stage that failed. -/
def stage : Failure → String
  | .reading _ => "ReaderError"
  | .configuring _ => "ConfigError"
  | .running _ => "RuntimeError"
  | .image _ => "FileIOError"

def message : CommandError → String
  | failure f => stage f ++ ": " ++ f.message
  | badText fault => "Utf8Error: " ++ fault.message
  | unknownArgument argument => "unknown argument \x60" ++ argument ++ "\x60"
  | badValue flag value => "bad value \x60" ++ value ++ "\x60 for " ++ flag
  | missingArgument => "not enough arguments\n\n" ++ usage
  | notFound file => "file not found: " ++ file

end CommandError

end RegisterMachine
