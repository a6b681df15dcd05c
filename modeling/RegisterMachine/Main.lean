import RegisterMachine.Command.Session

/-!
# The command line program

Reads the file that a command names, lets the session run to its end, prints its lines as they come
and writes the file that it may have built. The journal goes to the error stream: warnings always,
and everything with `--trace`.
-/

namespace RegisterMachine.Main

/-- The file that a command line names, if it is there. -/
def files : List String → IO Files
  | _ :: file :: _ => do
    try
      let bytes ← IO.FS.readBinFile file
      return Files.empty.write file bytes.data.toList
    catch _ => return .empty
  | _ => return .empty

/-- Shows events on the error stream. -/
def note (all : Bool) (events : List Event) : IO Unit := do
  for e in events do
    if all || e.level = .warn then
      let fields := e.fields.map fun (name, value) => " " ++ name ++ "=" ++ value
      IO.eprintln (e.message ++ String.join fields)

/-- Lets a session run until it is closed, and prints its lines as they come; so many of them have
been printed before. -/
partial def finish (paint : Paint) (all : Bool) (printed : Nat) (s : Session) : IO Report := do
  for line in s.lines.drop printed do
    IO.println line
  match s with
  | .closed r => return r
  | .running .. =>
    note all (s.events 1000).toList
    finish paint all s.lines.length (s.runFor paint 1000)

end RegisterMachine.Main

open RegisterMachine in
def main (arguments : List String) : IO UInt32 := do
  let paint := if ← (← IO.getStdout).isTty then Paint.terminal else Paint.plain
  let all := arguments.contains "--trace"
  let files ← Main.files arguments
  Main.note all (Session.startEvents files arguments)
  let report ← Main.finish paint all 0 (Session.start paint files arguments)
  match report.written with
  | some (path, bytes) => IO.FS.writeBinFile path ⟨bytes.toArray⟩
  | none => pure ()
  match report.result with
  | .ok () => return 0
  | .error e =>
    IO.eprintln (paint.wrap "1;31" 0 "error:" ++ " " ++ e.message)
    return 1
