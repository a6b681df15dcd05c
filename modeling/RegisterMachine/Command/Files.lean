import RegisterMachine.Text.Utf8

/-!
# Files

The files that commands read and write: bytes under paths. Paths that differ by empty parts or by
parts `.` alone lead to one file. A part `..` is not followed.
-/

namespace RegisterMachine

structure Files where
  /-- The files with the parts of their paths. -/
  entries : List (List String × Bytes)
deriving DecidableEq

namespace Files

def empty : Files := ⟨[]⟩

/-- Splits a text at its slashes. -/
def parts : List Char → List (List Char)
  | [] => [[]]
  | c :: cs =>
    if c = '/' then [] :: parts cs
    else match parts cs with
      | [] => [[c]]
      | p :: ps => (c :: p) :: ps

/-- Where a path leads: its parts, behind a slash if it begins with one. -/
def location (path : String) : List String :=
  let named := ((parts path.toList).map String.ofList).filter fun p => p ≠ "" && p ≠ "."
  if path.toList.head? = some '/' then "/" :: named else named

/-- The bytes of the file at a path. -/
def read (files : Files) (path : String) : Option Bytes :=
  (files.entries.find? (·.1 = location path)).map (·.2)

/-- Puts bytes at a path, in place of any that are there. -/
def write (files : Files) (path : String) (bytes : Bytes) : Files :=
  ⟨files.entries.filter (·.1 ≠ location path) ++ [(location path, bytes)]⟩

end Files

end RegisterMachine
