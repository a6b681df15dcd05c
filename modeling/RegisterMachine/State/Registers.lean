import RegisterMachine.Program.Error
import RegisterMachine.State.InPlace

/-!
# Registers

The registers of a machine in the order of their allocation. A register is known by its name while
a machine is put together and by its number while it runs; numbers are given out in order and never
change. Number 0 is the counter, number 1 the flag, and both are there from the start.
-/

namespace RegisterMachine

/-- A named cell. -/
structure Register where
  name : String
  value : Value
deriving DecidableEq

structure Registers where
  cells : List Register
deriving DecidableEq

namespace Registers

/-- The number of the register that holds the position of the next instruction. -/
def counter : Nat := 0

/-- The number of the register that holds the outcome of the last test. -/
def flag : Nat := 1

/-- The two registers that every machine has, unassigned. -/
def initial : Registers := ⟨[⟨"pc", .unassigned⟩, ⟨"flag", .unassigned⟩]⟩

instance : Inhabited Registers := ⟨initial⟩

/-- The number of the register with this name. -/
def lookup (r : Registers) (name : String) : Option Nat := r.cells.findIdx? (·.name = name)

def size (r : Registers) : Nat := r.cells.length

/-- Adds an unassigned register, unless its name is taken. Its number is the size there was. -/
def allocate (r : Registers) (name : String) : Except ConfigError Registers :=
  match r.lookup name with
  | some _ => .error (.duplicateRegister name)
  | none => .ok ⟨r.cells ++ [⟨name, .unassigned⟩]⟩

/-- Adds a register in place and answers its number. -/
def InPlace.allocate (name : String) : InPlace Registers ConfigError Nat := do
  let r ← get
  match r.lookup name with
  | some _ => throw (.duplicateRegister name)
  | none =>
    modify fun r => ⟨r.cells ++ [⟨name, .unassigned⟩]⟩
    return r.size

/-- The content of the register with this number. A number beyond the last register has none, and
reads as unassigned. -/
def get (r : Registers) (id : Nat) : Value :=
  match r.cells[id]? with
  | some c => c.value
  | none => .unassigned

/-- Changes the content of the register with this number. -/
def set (r : Registers) (id : Nat) (v : Value) : Registers :=
  ⟨r.cells.modify id fun c => { c with value := v }⟩

/-- The content of the register with this name. -/
def get? (r : Registers) (name : String) : Option Value := (r.lookup name).map r.get

/-- Changes the content of the register with this name, if there is one. -/
def set? (r : Registers) (name : String) (v : Value) : Option Registers :=
  (r.lookup name).map fun id => r.set id v

/-! ## A change and what it leaves -/

@[simp] theorem size_set (r : Registers) (id : Nat) (v : Value) : (r.set id v).size = r.size := by
  simp [size, set]

/-- **A change of content is one of a single cell.** -/
theorem cells_set (r : Registers) (id : Nat) (v : Value) (other : Nat) :
    (r.set id v).cells[other]? =
      if other = id then r.cells[id]?.map (⟨·.name, v⟩) else r.cells[other]? := by
  unfold set
  by_cases h : other = id
  · rw [if_pos h, h]
    exact List.getElem?_modify_eq _ _ _
  · rw [if_neg h]
    exact List.getElem?_modify_ne _ _ (Ne.symm h)

theorem names_set (r : Registers) (id : Nat) (v : Value) :
    (r.set id v).cells.map Register.name = r.cells.map Register.name := by
  refine List.ext_getElem? fun other => ?_
  rw [List.getElem?_map, List.getElem?_map, cells_set]
  by_cases h : other = id
  · rw [if_pos h, h]
    cases r.cells[id]? <;> rfl
  · rw [if_neg h]

theorem lookup_eq_findIdx? (r : Registers) (name : String) :
    r.lookup name = (r.cells.map Register.name).findIdx? (· = name) := by
  simp [lookup, List.findIdx?_map, Function.comp_def]

/-- A change moves no name. -/
@[simp] theorem lookup_set (r : Registers) (id : Nat) (v : Value) (name : String) :
    (r.set id v).lookup name = r.lookup name := by
  rw [lookup_eq_findIdx?, lookup_eq_findIdx?, names_set]

theorem get_set_self {r : Registers} {id : Nat} (h : id < r.size) (v : Value) :
    (r.set id v).get id = v := by
  have hc : id < r.cells.length := h
  simp [get, set, hc]

theorem get_set_of_ne {r : Registers} {id other : Nat} (h : id ≠ other) (v : Value) :
    (r.set id v).get other = r.get other := by
  simp [get, set, h]

/-- **An allocation in place that is refused changes nothing.** -/
theorem InPlace.on_allocate (r : Registers) (name : String) :
    (InPlace.allocate name).on r =
      InPlace.whole r ((r.allocate name).map fun r' => (r.size, r')) := by
  simp only [InPlace.allocate, Registers.allocate, InPlace.on_bind, InPlace.on_get]
  cases r.lookup name <;> rfl

end Registers

end RegisterMachine
