import Mathlib.Data.List.Induction
import Mathlib.Logic.Function.Basic
import RegisterMachine.Proofs.Growth

/-!
# Tables of names

Registers and operations are known by name and by number, and programs keep the numbers. Both tables
take in a name once, where it comes first, and never move what they have. So the names in a table are
the names that were asked for without those that repeat an earlier one (`List.eraseDups`), and a
number belongs to a name exactly if the name stands there. All else follows from these two, whatever
calls succeeded or failed in between.

A register file can look names up in an index that it keeps beside its cells (`Registers.Indexed`).
The index is entered by allocation alone, and at no time says anything else than the cells.
-/

namespace RegisterMachine

/-! ## Names taken in once -/

section Names

variable {α : Type} [DecidableEq α] {x : α} {xs : List α} {id : Nat}

/-- A name is taken in if it was not there. -/
theorem eraseDups_concat (xs : List α) (x : α) :
    (xs ++ [x]).eraseDups = if x ∈ xs then xs.eraseDups else xs.eraseDups ++ [x] := by
  rw [List.eraseDups_append]
  by_cases h : x ∈ xs
  · simp [List.removeAll, h]
  · simp [List.removeAll, h, List.eraseDups_cons]

theorem nodup_eraseDups (xs : List α) : xs.eraseDups.Nodup := by
  induction xs using List.reverseRecOn with
  | nil => exact List.nodup_nil
  | append_singleton xs x ih =>
      rw [eraseDups_concat]
      by_cases h : x ∈ xs
      · rw [if_pos h]
        exact ih
      · rw [if_neg h, ← List.concat_eq_append, List.nodup_concat, List.mem_eraseDups]
        exact ⟨h, ih⟩

/-- Among distinct names the first place of a name is its only one. -/
theorem findIdx?_eq_some_iff_of_nodup (h : xs.Nodup) :
    xs.findIdx? (· = x) = some id ↔ xs[id]? = some x := by
  rw [List.findIdx?_eq_some_iff_getElem, List.getElem?_eq_some_iff]
  constructor
  · rintro ⟨hid, hx, _⟩
    exact ⟨hid, of_decide_eq_true hx⟩
  · rintro ⟨hid, hx⟩
    refine ⟨hid, decide_eq_true hx, ?_⟩
    intro j hj hxj
    have heq : xs[j] = xs[id] := (of_decide_eq_true hxj).trans hx.symm
    have hsame := h.getElem_inj_iff.mp heq
    omega

end Names

/-! ## Registers -/

namespace Registers

/-- What is done to a register file. -/
inductive Change where
  | allocate (name : String)
  | set (id : Nat) (v : Value)

/-- The name that a change asks for. -/
def Change.asked? : Change → Option String
  | .allocate name => some name
  | .set _ _ => none

/-- The register file that a change leaves, whether or not it succeeds. -/
def change (r : Registers) : Change → Registers
  | .allocate name => ((InPlace.allocate name).on r).2
  | .set id v => r.set id v

/-- A register file after changes one after the other. -/
def changeAll (r : Registers) (changes : List Change) : Registers := changes.foldl change r

variable {r r' : Registers} {name : String} {id : Nat} {asked : List String}

theorem change_allocate (r : Registers) (name : String) :
    r.change (.allocate name) = if name ∈ r.cells.map Register.name then r
      else ⟨r.cells ++ [⟨name, .unassigned⟩]⟩ := by
  simp only [change, InPlace.on_allocate, allocate_eq]
  by_cases h : name ∈ r.cells.map Register.name
  · rw [if_pos h, if_pos h]
    rfl
  · rw [if_neg h, if_neg h]
    rfl

/-! ### Changes one after the other -/

/-- What one change does to the names. -/
theorem names_change (h : r.cells.map Register.name = asked.eraseDups) (c : Change) :
    (r.change c).cells.map Register.name = (asked ++ c.asked?.toList).eraseDups := by
  cases c with
  | allocate name =>
      -- what is refused is what was asked for before, even if it was refused then too
      have hmem : name ∈ r.cells.map Register.name ↔ name ∈ asked := by
        rw [h, List.mem_eraseDups]
      refine Eq.trans ?_ (eraseDups_concat asked name).symm
      rw [change_allocate]
      by_cases hname : name ∈ asked
      · rw [if_pos hname, if_pos (hmem.mpr hname), h]
      · rw [if_neg hname, if_neg (mt hmem.mp hname), List.map_append, h]
        rfl
  | set id v =>
      refine (names_set r id v).trans (h.trans ?_)
      simp [Change.asked?]

/-- **The names are those that were asked for**, without repetitions and in their order. -/
theorem names_changeAll (h : r.cells.map Register.name = asked.eraseDups) (changes : List Change) :
    (r.changeAll changes).cells.map Register.name
      = (asked ++ changes.filterMap Change.asked?).eraseDups := by
  induction changes generalizing r asked with
  | nil => rwa [List.filterMap_nil, List.append_nil]
  | cons c changes ih =>
      refine (ih (names_change h c)).trans ?_
      rw [List.append_assoc]
      cases c <;> rfl

theorem size_le_change (r : Registers) (c : Change) : r.size ≤ (r.change c).size := by
  cases c with
  | allocate name =>
      rw [change_allocate]
      split
      · exact Nat.le_refl _
      · simp [size]
  | set id v => exact Nat.le_of_eq (size_set r id v).symm

/-- A cell is changed by nothing but a change of its content. -/
theorem cells_change (h : id < r.size) {c : Change} (hc : ∀ v, c ≠ .set id v) :
    (r.change c).cells[id]? = r.cells[id]? := by
  cases c with
  | allocate name =>
      rw [change_allocate]
      split
      · rfl
      · exact List.getElem?_append_left h
  | set other v =>
      have hne : id ≠ other := by
        intro he
        exact hc v (by rw [he])
      exact (cells_set r other v id).trans (if_neg hne)

/-- **A cell lasts**, with its number, its name and its content, until the content is changed. -/
theorem cells_changeAll (h : id < r.size) {changes : List Change}
    (hchanges : ∀ v, .set id v ∉ changes) : (r.changeAll changes).cells[id]? = r.cells[id]? := by
  induction changes generalizing r with
  | nil => rfl
  | cons c changes ih =>
      have hc : ∀ v, c ≠ .set id v := by
        intro v he
        exact hchanges v (he ▸ List.mem_cons_self)
      have hrest : ∀ v, .set id v ∉ changes := fun v hv => hchanges v (List.mem_cons_of_mem c hv)
      exact (ih (Nat.lt_of_lt_of_le h (size_le_change r c)) hrest).trans (cells_change h hc)

/-- **A name keeps its number.** -/
theorem lookup_changeAll (h : r.lookup name = some id) (changes : List Change) :
    (r.changeAll changes).lookup name = some id := by
  induction changes generalizing r with
  | nil => exact h
  | cons c changes ih =>
      refine ih ?_
      cases c with
      | allocate other =>
          simp only [change, InPlace.on_allocate]
          cases hr : r.allocate other with
          | ok r' => exact lookup_allocate_of_some hr h
          | error e => exact h
      | set other v => exact (lookup_set r other v name).trans h

/-- What is certain of a register file in which such names, in this order, were asked for. -/
structure Kept (asked : List String) (r : Registers) : Prop where
  /-- The names stand in the order in which they were first asked for. -/
  names : r.cells.map Register.name = asked.eraseDups
  distinct : (r.cells.map Register.name).Nodup
  lookup : ∀ name id, r.lookup name = some id ↔ ∃ v, r.cells[id]? = some ⟨name, v⟩
  /-- A name that was asked for before is refused, and a new cell is unassigned. -/
  allocate : ∀ name, r.allocate name =
    if name ∈ asked then .error (.duplicateRegister name) else .ok ⟨r.cells ++ [⟨name, .unassigned⟩]⟩
  refused : ∀ name ∈ asked, r.change (.allocate name) = r
  set : ∀ id v other, (r.set id v).cells[other]? =
    if other = id then r.cells[id]?.map (⟨·.name, v⟩) else r.cells[other]?
  cells_last : ∀ changes id, id < r.size → (∀ v, .set id v ∉ changes) →
    (r.changeAll changes).cells[id]? = r.cells[id]?
  numbers_last : ∀ changes name id, r.lookup name = some id →
    (r.changeAll changes).lookup name = some id

theorem kept_of_names (h : r.cells.map Register.name = asked.eraseDups) : r.Kept asked where
  names := h
  distinct := h ▸ nodup_eraseDups asked
  lookup name id := by
    rw [lookup_eq_findIdx?, findIdx?_eq_some_iff_of_nodup (h ▸ nodup_eraseDups asked),
      List.getElem?_map, Option.map_eq_some_iff]
    constructor
    · rintro ⟨⟨_, v⟩, hcell, rfl⟩
      exact ⟨v, hcell⟩
    · rintro ⟨v, hcell⟩
      exact ⟨_, hcell, rfl⟩
  allocate name := by
    rw [allocate_eq]
    simp only [h, List.mem_eraseDups]
  refused name hname := by
    rw [change_allocate, if_pos (h ▸ List.mem_eraseDups.mpr hname)]
  set := cells_set r
  cells_last _ _ hid hchanges := cells_changeAll hid hchanges
  numbers_last changes _ _ hlookup := lookup_changeAll hlookup changes

theorem kept_changeAll (changes : List Change) :
    (initial.changeAll changes).Kept ("pc" :: "flag" :: changes.filterMap Change.asked?) := by
  have hnames : initial.cells.map Register.name = ["pc", "flag"].eraseDups := by decide
  exact kept_of_names (names_changeAll hnames changes)

example : (initial.changeAll [.allocate "n", .set 2 (.bool true), .allocate "flag", .allocate "n",
    .allocate "m"]).cells = [⟨"pc", .unassigned⟩, ⟨"flag", .unassigned⟩, ⟨"n", .bool true⟩,
      ⟨"m", .unassigned⟩] := by decide

/-! ### An index beside the cells -/

/-- A register file that looks names up in an index. -/
structure Indexed where
  cells : List Register
  index : String → Option Nat

namespace Indexed

/-- Adds an unassigned cell and enters its name. An entry replaces an earlier one of that name. -/
def push (f : Indexed) (name : String) : Indexed :=
  ⟨f.cells ++ [⟨name, .unassigned⟩], Function.update f.index name (some f.cells.length)⟩

def initial : Indexed := (push ⟨[], fun _ => none⟩ "pc").push "flag"

/-- Adds a register in place, unless its name is entered, and answers its number. -/
def allocate (name : String) : InPlace Indexed ConfigError Nat := do
  let f ← MonadState.get
  match f.index name with
  | some _ => throw (.duplicateRegister name)
  | none =>
    modify (·.push name)
    return f.cells.length

/-- Changes the content of a cell and leaves the index. -/
def set (f : Indexed) (id : Nat) (v : Value) : Indexed :=
  { f with cells := f.cells.modify id fun c => { c with value := v } }

def change (f : Indexed) : Change → Indexed
  | .allocate name => ((allocate name).on f).2
  | .set id v => f.set id v

def changeAll (f : Indexed) (changes : List Change) : Indexed := changes.foldl change f

end Indexed

/-- The register file with an index that says the same as its cells. -/
def indexed (r : Registers) : Indexed := ⟨r.cells, r.lookup⟩

theorem indexed_initial : initial.indexed = .initial := by
  have hindex : ∀ name, initial.lookup name = Indexed.initial.index name := by
    intro name
    by_cases hflag : name = "flag"
    · subst hflag
      rfl
    · by_cases hpc : name = "pc"
      · subst hpc
        rfl
      · simp [lookup, initial, Indexed.initial, Indexed.push, Ne.symm hflag, Ne.symm hpc, hflag, hpc]
  exact congrArg _ (funext hindex)

/-- **Allocation enters what a search of the cells then finds**, and nothing if it is refused. -/
theorem allocate_indexed (r : Registers) (name : String) :
    (Indexed.allocate name).on r.indexed =
      InPlace.whole r.indexed ((r.allocate name).map fun r' => (r.size, r'.indexed)) := by
  simp only [Indexed.allocate, InPlace.on_bind, InPlace.on_get]
  cases h : r.lookup name with
  | some id =>
      have hfound : r.indexed.index name = some id := h
      have hrefused : r.allocate name = .error (.duplicateRegister name) := by
        simp only [allocate, h]
      rw [hfound, hrefused]
      rfl
  | none =>
      have hfree : r.indexed.index name = none := h
      have hok : r.allocate name = .ok ⟨r.cells ++ [⟨name, .unassigned⟩]⟩ := by
        simp only [allocate, h]
      have hpush : r.indexed.push name
          = (⟨r.cells ++ [⟨name, .unassigned⟩]⟩ : Registers).indexed := by
        refine congrArg (Indexed.mk _) (funext fun other => ?_)
        rw [lookup_allocate hok, Function.update_apply]
        rfl
      rw [hfree, hok]
      exact congrArg (Prod.mk (Except.ok r.size)) hpush

theorem set_indexed (r : Registers) (id : Nat) (v : Value) :
    r.indexed.set id v = (r.set id v).indexed := by
  have hindex : (r.set id v).lookup = r.lookup := funext (lookup_set r id v)
  unfold indexed
  rw [hindex]
  rfl

theorem change_indexed (r : Registers) (c : Change) : r.indexed.change c = (r.change c).indexed := by
  cases c with
  | allocate name =>
      simp only [Indexed.change, change, allocate_indexed, InPlace.on_allocate]
      cases r.allocate name <;> rfl
  | set id v => exact set_indexed r id v

/-- **The index never drifts.** -/
theorem changeAll_indexed (r : Registers) (changes : List Change) :
    r.indexed.changeAll changes = (r.changeAll changes).indexed := by
  induction changes generalizing r with
  | nil => rfl
  | cons c changes ih =>
      show (r.indexed.change c).changeAll changes = _
      rw [change_indexed, ih]
      rfl

end Registers

/-! ## Operations -/

namespace Operations

variable {t : Operations} {installed : List Binding} {name : String} {id : Nat}

/-- Installs a binding and answers whether it is visible. -/
def offer (t : Operations) (b : Binding) : Bool × Operations :=
  match t.lookup b.name with
  | some _ => (false, t)
  | none => (true, ⟨t.bindings ++ [b]⟩)

theorem offer_eq (t : Operations) (b : Binding) : t.offer b = (!t.binds b.name, t.install b) := by
  unfold offer install
  rw [binds_eq_isSome_lookup]
  cases t.lookup b.name <;> rfl

theorem lookup_eq_findIdx? (t : Operations) (name : String) :
    t.lookup name = (t.bindings.map Binding.name).findIdx? (· = name) := by
  simp [lookup, List.findIdx?_map, Function.comp_def]

theorem binds_iff : t.binds name = true ↔ name ∈ t.bindings.map Binding.name := by
  unfold binds
  simp

/-- **The names are those that were installed**, without repetitions and in their order. -/
theorem names_installAll (installed : List Binding) :
    (empty.installAll installed).bindings.map Binding.name
      = (installed.map Binding.name).eraseDups := by
  induction installed using List.reverseRecOn with
  | nil => rfl
  | append_singleton bs b ih =>
      have hlast : empty.installAll (bs ++ [b]) = (empty.installAll bs).install b :=
        List.foldl_append
      rw [hlast, List.map_append, List.map_singleton, eraseDups_concat]
      unfold install
      simp only [binds_iff, ih, List.mem_eraseDups]
      by_cases h : b.name ∈ bs.map Binding.name
      · rw [if_pos h, if_pos h, ih]
      · rw [if_neg h, if_neg h, List.map_append, ih]
        rfl

/-- What is certain of a table in which such bindings, in this order, were installed. -/
structure Kept (installed : List Binding) (t : Operations) : Prop where
  /-- The names stand in the order in which they were first installed. -/
  names : t.bindings.map Binding.name = (installed.map Binding.name).eraseDups
  distinct : (t.bindings.map Binding.name).Nodup
  lookup : ∀ name id, t.lookup name = some id ↔ ∃ b, t.get? id = some b ∧ b.name = name
  /-- A name stands for the first binding of it. -/
  first : ∀ name, (t.lookup name).bind t.get? = installed.find? (·.name = name)
  /-- A binding is visible if its name was not bound before, and else changes nothing. -/
  offer : ∀ b, t.offer b =
    if ∃ earlier ∈ installed, earlier.name = b.name then (false, t) else (true, ⟨t.bindings ++ [b]⟩)
  install : ∀ b, t.install b = (t.offer b).2
  bindings_last : ∀ later id b, t.get? id = some b → (t.installAll later).get? id = some b
  numbers_last : ∀ later name id, t.lookup name = some id →
    (t.installAll later).lookup name = some id

theorem kept_installAll (installed : List Binding) : (empty.installAll installed).Kept installed := by
  have hnames := names_installAll installed
  have hdistinct : ((empty.installAll installed).bindings.map Binding.name).Nodup :=
    hnames ▸ nodup_eraseDups _
  refine ⟨hnames, hdistinct, ?_, ?_, ?_, ?_, ?_, ?_⟩
  · intro name id
    rw [lookup_eq_findIdx?, findIdx?_eq_some_iff_of_nodup hdistinct, List.getElem?_map,
      Option.map_eq_some_iff]
    rfl
  · intro name
    rw [bind_lookup, find?_installAll]
    rfl
  · intro b
    have hbinds : (empty.installAll installed).binds b.name = true
        ↔ ∃ earlier ∈ installed, earlier.name = b.name := by
      rw [binds_iff, hnames, List.mem_eraseDups, List.mem_map]
    rw [offer_eq]
    unfold install
    simp only [hbinds]
    by_cases h : ∃ earlier ∈ installed, earlier.name = b.name
    · rw [if_pos h, if_pos h, hbinds.mpr h]
      rfl
    · rw [if_neg h, if_neg h, Bool.eq_false_iff.mpr fun hb => h (hbinds.mp hb)]
      rfl
  · intro b
    rw [offer_eq]
  · intro later id b h
    exact get?_installAll_of_some h later
  · intro later name id h
    exact lookup_installAll_of_some h later

end Operations

/--
**Tables keep their names.**

Whatever was allocated and set in a register file, whether it succeeded or not: the names are distinct
and stand in the order of their allocation, `pc` and `flag` first; a name is looked up as a number
exactly if the cell with this number has that name; a name is refused exactly if it was asked for
before, and this changes nothing; a new cell is unassigned; a cell is changed by nothing but setting
it, and a name keeps its number. A file that keeps an index beside its cells has the same cells, finds
the same in its index, and gives the same answers.

Whatever was installed in a table of operations: the names are distinct; a binding is told to be
visible exactly if none of its name was installed before; a name is looked up as the number of the
first binding ever installed under it; and no number changes its binding.
-/
theorem tables_keep_names (changes : List Registers.Change) (installed : List Binding) :
    (Registers.initial.changeAll changes).Kept
        ("pc" :: "flag" :: changes.filterMap Registers.Change.asked?)
      ∧ (Registers.initial.changeAll changes).lookup "pc" = some Registers.counter
      ∧ (Registers.initial.changeAll changes).lookup "flag" = some Registers.flag
      ∧ Registers.Indexed.initial.changeAll changes = (Registers.initial.changeAll changes).indexed
      ∧ (∀ name, (Registers.Indexed.allocate name).on (Registers.Indexed.initial.changeAll changes) =
          InPlace.whole (Registers.Indexed.initial.changeAll changes)
            (((Registers.initial.changeAll changes).allocate name).map
              fun r => ((Registers.initial.changeAll changes).size, r.indexed)))
      ∧ (Operations.empty.installAll installed).Kept installed := by
  have hindexed : Registers.Indexed.initial.changeAll changes
      = (Registers.initial.changeAll changes).indexed := by
    rw [← Registers.indexed_initial, Registers.changeAll_indexed]
  refine ⟨Registers.kept_changeAll changes,
    Registers.lookup_changeAll Registers.standard_initial.counter changes,
    Registers.lookup_changeAll Registers.standard_initial.flag changes, hindexed, ?_,
    Operations.kept_installAll installed⟩
  intro name
  rw [hindexed, Registers.allocate_indexed]

end RegisterMachine
