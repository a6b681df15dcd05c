import RegisterMachine.Command.Arguments
import RegisterMachine.Command.Files
import RegisterMachine.Machine.Journal

/-!
# Carrying commands out

A command either comes to its report at once or starts a machine, which then runs one tick at a time
until there is something to report. A report is the whole of what a command does: its result, the
lines it prints and the one file it may write. Nothing is printed but through it, and a command that
fails writes no file.
-/

namespace RegisterMachine

/-! ## What is printed -/

/-- How words stand out in what is printed. -/
inductive Paint where
  | plain
  /-- With the escape sequences of a terminal. -/
  | terminal
deriving DecidableEq

/-- Text moved right by blanks to take at least `width` characters. -/
def padLeft (width : Nat) (text : String) : String :=
  String.ofList (List.replicate (width - text.length) ' ') ++ text

namespace Paint

/-- Text in which a style begins again behind every escape sequence that ends all styles. -/
def resume (style : List Char) : List Char → List Char
  | '\x1b' :: '[' :: '0' :: 'm' :: cs =>
    '\x1b' :: '[' :: '0' :: 'm' :: (style ++ resume style cs)
  | c :: cs => c :: resume style cs
  | [] => []

/-- Text of at least `width` characters between the escape sequence that begins a style and the one
that ends all. The escape sequences within the text count towards its width. -/
def wrap (p : Paint) (code : String) (width : Nat) (text : String) : String :=
  match p with
  | plain => padLeft width text
  | terminal =>
    let style := "\x1b[" ++ code ++ "m"
    style ++ padLeft width (String.ofList (resume style.toList text.toList)) ++ "\x1b[0m"

def green (p : Paint) (text : String) : String := p.wrap "32" 0 text
def cyan (p : Paint) (text : String) : String := p.wrap "36" 0 text
def bold (p : Paint) (width : Nat) (text : String) : String := p.wrap "1" width text

end Paint

/-- What a command did. -/
structure Report where
  result : Except CommandError Unit
  lines : List String
  /-- The file it wrote, by path. -/
  written : Option (String × Bytes)

namespace Report

instance : Inhabited Report := ⟨⟨.ok (), [], none⟩⟩

/-- The report of a command that failed before it did anything. -/
def failed (e : CommandError) : Report := ⟨.error e, [], none⟩

/-- The files after a command. -/
def filesAfter (r : Report) (files : Files) : Files :=
  match r.written with
  | some (path, bytes) => files.write path bytes
  | none => files

/-- What a command prints. -/
def output (r : Report) : String := String.join (r.lines.map (· ++ "\n"))

end Report

/-! ## The commands -/

namespace Command

/-- The description in a file, be it an image or source text. -/
def load (files : Files) (file : String) : Except CommandError Description :=
  match files.read file with
  | none => .error (.notFound file)
  | some bytes =>
    if Image.isImage bytes then (Image.decode bytes).mapError (.failure ∘ .image)
    else do
      let source ← (Utf8.decode bytes).mapError .badText
      (Description.ofSource source).mapError (.failure ∘ .reading)

/-- The machine that a description makes, with the standard operations. -/
def assemble (d : Description) (settings : Settings) : Except CommandError Machine :=
  (d.buildStandard settings).mapError (.failure ∘ .configuring)

/-- The path of the image that is built from a file: what follows the last dot of the path is
replaced, or added where the path has no dot. -/
def imagePath (file : String) : String :=
  let stem := match file.toList.reverse.dropWhile (· ≠ '.') with
    | [] => file.toList
    | _ :: rest => rest.reverse
  String.ofList stem ++ ".rmc"

/-- Builds an image, of a description that makes a machine. -/
def buildReport (paint : Paint) (files : Files) (file : String) : Report :=
  let image : Except CommandError Bytes := do
    let d ← load files file
    let _ ← assemble d .default
    (Image.encode d).mapError (.failure ∘ .image)
  match image with
  | .error e => .failed e
  | .ok bytes =>
    ⟨.ok (), [paint.green "wrote" ++ " " ++ imagePath file], some (imagePath file, bytes)⟩

/-- Shows the size of a program and where its labels are. -/
def programLines (paint : Paint) (p : Program) : List String :=
  (paint.green "ok" ++ " " ++ toString p.size ++ " instruction(s)") ::
    p.labels.entries.map fun (label, position) =>
      "  " ++ padLeft 4 (toString position) ++ "  " ++ paint.cyan label

/-- Checks that a file makes a machine. -/
def checkReport (paint : Paint) (files : Files) (file : String) : Report :=
  match load files file >>= (assemble · .default) with
  | .error e => .failed e
  | .ok m => ⟨.ok (), (m.program.map (programLines paint)).getD [], none⟩

/-- The machine that `run` lets run. -/
def launch (files : Files) (file : String) (o : RunOptions) : Except CommandError Machine := do
  let d ← load files file
  (d.launch o.sets o.settings).mapError .failure

/-- The lines that the operations of a machine have printed. -/
def printed (m : Machine) : List String :=
  m.state.tape.toList.filterMap fun
    | .printed line => some line
    | .reported .. => none

/-- Shows the registers of a machine that has halted. -/
def registerLines (paint : Paint) (showCounter : Bool) (r : Registers) : List String :=
  let shown := r.cells.filter fun c => showCounter || c.name ≠ "pc"
  shown.map fun c => paint.bold 12 c.name ++ " = " ++ c.value.text

/-- Shows the counts of a run that has halted. -/
def doneLine (paint : Paint) (d : Done) : String :=
  paint.green "halted" ++ " after " ++ toString d.steps ++ " instruction(s); " ++
    toString d.stack.pushes ++ " push(es), max stack depth " ++ toString d.stack.maxDepth

/-- The report of a run that has come to an end. -/
def runReport (paint : Paint) (o : RunOptions) (m : Machine) : Except RunError Done → Report
  | .error e => ⟨.error (.failure (.running e)), printed m, none⟩
  | .ok d =>
    ⟨.ok (),
      printed m ++ (registerLines paint o.showCounter m.state.registers ++ [doneLine paint d]),
      none⟩

end Command

/-- A command under way. -/
inductive Session where
  | running (o : RunOptions) (m : Machine)
  | closed (r : Report)

namespace Session

/-- Begins with a command line. -/
def start (paint : Paint) (files : Files) (arguments : List String) : Session :=
  match Command.ofArguments arguments with
  | .error e => .closed (.failed e)
  | .ok (.build file) => .closed (Command.buildReport paint files file)
  | .ok (.check file) => .closed (Command.checkReport paint files file)
  | .ok (.run file o) =>
    match Command.launch files file o with
    | .error e => .closed (.failed e)
    | .ok m => .running o m

/-- Goes on by at most so many ticks, and closes once the machine has come to an end. -/
def runFor (paint : Paint) (ticks : Nat) : Session → Session
  | closed r => closed r
  | running o m =>
    let m := m.runFor ticks
    match m.outcome with
    | some result => closed (Command.runReport paint o m result)
    | none => running o m

/-- The lines that a session has printed so far. -/
def lines : Session → List String
  | running _ m => Command.printed m
  | closed r => r.lines

/-! ## The journal of a session -/

/-- What the machine of a command notes while it is put together. -/
def startEvents (files : Files) (arguments : List String) : List Event :=
  let noted (file : String) (sets : List (String × Value)) : List Event :=
    match Command.load files file with
    | .error _ => []
    | .ok d => (Machine.new .default).requestsEvents (d.standardRequests sets)
  match Command.ofArguments arguments with
  | .error _ => []
  | .ok (.build file) | .ok (.check file) => noted file []
  | .ok (.run file o) => noted file o.sets

/-- What the machine of a session notes in at most so many ticks. -/
def events (ticks : Nat) : Session → Array Event
  | closed _ => #[]
  | running _ m => (m.follow ticks #[]).2

end Session

end RegisterMachine
