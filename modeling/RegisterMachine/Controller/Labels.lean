import RegisterMachine.Controller.Basic

/-!
# Labels

A label stands before an instruction or at the end, and names the position of what follows it: the
number of instructions above it. Labels that stand together name the same position. A name that
labels two places belongs to the first of them.
-/

namespace RegisterMachine

namespace Item

/-- The instructions of a controller, in order. -/
def instructions : List Item → List Instruction
  | [] => []
  | label _ :: rest => instructions rest
  | instruction i :: rest => i :: instructions rest

/-- Every label of a controller with its position, where `above` instructions stand above the first
line. -/
def marks (above : Nat) : List Item → List (String × Nat)
  | [] => []
  | label name :: rest => (name, above) :: marks above rest
  | instruction _ :: rest => marks (above + 1) rest

end Item

/-- The labels of a program, each with the position it names. -/
structure Labels where
  /-- No name occurs twice; positions ascend, and names at one position too. -/
  entries : List (String × Nat)
deriving Inhabited

namespace Labels

/-- Keeps the first of the marks with each name. -/
def firsts : List (String × Nat) → List (String × Nat)
  | [] => []
  | m :: rest => m :: (firsts rest).filter (·.1 ≠ m.1)

/-- Whether `a` is listed no later than `b`: by position, then by name. -/
def inOrder (a b : String × Nat) : Bool := a.2 < b.2 || (a.2 = b.2 && (compare a.1 b.1).isLE)

/-- The labels of a controller. -/
def ofItems (items : List Item) : Labels :=
  ⟨(firsts (Item.marks 0 items)).mergeSort inOrder⟩

/-- The position that a name labels. -/
def lookup (labels : Labels) (name : String) : Option Nat :=
  (labels.entries.find? (·.1 = name)).map (·.2)

def size (labels : Labels) : Nat := labels.entries.length

end Labels

namespace Item

/-- The labels that repeat one further down, from the bottom up: one entry for every label whose
name also labels a later place. -/
def repeated : List Item → List String
  | [] => []
  | label name :: rest =>
    repeated rest ++ if (marks 0 rest).any (·.1 = name) then [name] else []
  | instruction _ :: rest => repeated rest

end Item

end RegisterMachine
