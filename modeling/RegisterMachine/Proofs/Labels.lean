import Mathlib.Data.List.Nodup
import RegisterMachine.Controller.Labels

/-!
# Where a label leads

A label is a position in the program and, seen from the source, the rest of the controller behind
it. This file ties the two together. The table of labels is sorted for the reader of listings, but a
look-up in it finds what a walk down the controller finds first, and the position found there is
exactly where the instructions behind that first occurrence begin.
-/

namespace RegisterMachine

/-! ## Looking a name up in a list -/

section Lookup

variable {α : Type} {key : α → String} {xs ys : List α} {name : String} {x : α}

/-- Where only one entry has the name, looking it up is being there. -/
theorem find?_key_eq_some_iff
    (hu : ∀ x ∈ xs, ∀ y ∈ xs, key x = name → key y = name → x = y) :
    xs.find? (key · = name) = some x ↔ x ∈ xs ∧ key x = name := by
  constructor
  · intro h
    exact ⟨List.mem_of_find?_eq_some h, by simpa using List.find?_some h⟩
  · intro h
    obtain ⟨hx, hn⟩ := h
    have hsome : (xs.find? (key · = name)).isSome :=
      List.find?_isSome.mpr ⟨x, hx, decide_eq_true hn⟩
    obtain ⟨y, hy⟩ := Option.isSome_iff_exists.mp hsome
    have hyn : key y = name := by simpa using List.find?_some hy
    rw [hy, hu x hx y (List.mem_of_find?_eq_some hy) hn hyn]

/-- **The order does not matter** to a look-up then, nor do entries with other names. -/
theorem find?_key_congr (hu : ∀ x ∈ xs, ∀ y ∈ xs, key x = name → key y = name → x = y)
    (hm : ∀ x, key x = name → (x ∈ xs ↔ x ∈ ys)) :
    xs.find? (key · = name) = ys.find? (key · = name) := by
  have hu' : ∀ x ∈ ys, ∀ y ∈ ys, key x = name → key y = name → x = y := by
    intro x hx y hy hxn hyn
    exact hu x ((hm x hxn).mpr hx) y ((hm y hyn).mpr hy) hxn hyn
  apply Option.ext
  intro x
  rw [find?_key_eq_some_iff hu, find?_key_eq_some_iff hu']
  exact and_congr_left (hm x)

end Lookup

namespace Item

/-- The instructions behind the first label with this name. -/
def behind (name : String) : List Item → Option (List Instruction)
  | [] => none
  | label l :: rest => if l = name then some (instructions rest) else behind name rest
  | instruction _ :: rest => behind name rest

/-- The position of the first label with this name, where `above` instructions stand above. -/
def firstMark (name : String) (above : Nat) (items : List Item) : Option Nat :=
  ((marks above items).find? (·.1 = name)).map (·.2)

theorem firstMark_label (name l : String) (above : Nat) (rest : List Item) :
    firstMark name above (label l :: rest) =
      if l = name then some above else firstMark name above rest := by
  unfold firstMark
  rw [marks, List.find?_cons]
  by_cases hl : l = name
  · simp [hl]
  · simp [hl]

theorem firstMark_instruction (name : String) (i : Instruction) (above : Nat) (rest : List Item) :
    firstMark name above (instruction i :: rest) = firstMark name (above + 1) rest := rfl

/-- Positions count from the line they are counted from. -/
theorem firstMark_succ (name : String) (above : Nat) (items : List Item) :
    firstMark name (above + 1) items = (firstMark name above items).map (· + 1) := by
  induction items generalizing above with
  | nil => rfl
  | cons x rest ih =>
      cases x with
      | label l =>
          rw [firstMark_label, firstMark_label, ih]
          by_cases hl : l = name
          · rw [if_pos hl, if_pos hl]; rfl
          · rw [if_neg hl, if_neg hl]
      | instruction i => rw [firstMark_instruction, firstMark_instruction, ih]

/-- **A label leads to the rest behind it.** Dropping as many instructions as the position of a
label says leaves the instructions behind its first occurrence. -/
theorem behind_eq_drop (name : String) (items : List Item) :
    behind name items = (firstMark name 0 items).map fun k => (instructions items).drop k := by
  induction items with
  | nil => rfl
  | cons x rest ih =>
      cases x with
      | label l =>
          rw [behind, firstMark_label]
          by_cases hl : l = name
          · rw [if_pos hl, if_pos hl]; rfl
          · rw [if_neg hl, if_neg hl, ih]; rfl
      | instruction i =>
          rw [behind, firstMark_instruction, firstMark_succ, ih, Option.map_map]
          rfl

/-- A label stands at or before the end. -/
theorem firstMark_le {name : String} {items : List Item} {k : Nat}
    (h : firstMark name 0 items = some k) : k ≤ (instructions items).length := by
  induction items generalizing k with
  | nil => exact absurd h (by simp [firstMark, marks])
  | cons x rest ih =>
      cases x with
      | label l =>
          rw [firstMark_label] at h
          split at h
          · rw [← Option.some.inj h]; exact Nat.zero_le _
          · exact ih h
      | instruction i =>
          rw [firstMark_instruction, firstMark_succ] at h
          obtain ⟨j, hj, rfl⟩ := Option.map_eq_some_iff.mp h
          exact Nat.succ_le_succ (ih hj)

end Item

/-! ## The table of labels -/

namespace Labels

theorem find?_firsts (ms : List (String × Nat)) (name : String) :
    (firsts ms).find? (·.1 = name) = ms.find? (·.1 = name) := by
  induction ms with
  | nil => rfl
  | cons m rest ih =>
      rw [firsts, List.find?_cons, List.find?_cons, List.find?_filter, ← ih]
      by_cases hm : m.1 = name
      · simp [hm]
      · -- dropping entries named like `m` removes none named otherwise
        simp only [hm, decide_false]
        congr 1
        funext x
        by_cases hx : x.1 = name
        · have hne : x.1 ≠ m.1 := fun he => hm (he.symm.trans hx)
          simp [hx, hx ▸ hne]
        · simp [hx]

theorem nodup_firsts (ms : List (String × Nat)) : ((firsts ms).map Prod.fst).Nodup := by
  induction ms with
  | nil => exact List.nodup_nil
  | cons m rest ih =>
      rw [firsts, List.map_cons, List.nodup_cons]
      refine ⟨?_, ?_⟩
      · intro hm
        obtain ⟨x, hx, he⟩ := List.mem_map.mp hm
        simpa [he] using (List.mem_filter.mp hx).2
      · exact ih.sublist (List.Sublist.map _ List.filter_sublist)

/-- The entries are the first marks, in the order of a listing. -/
theorem entries_perm (items : List Item) :
    (ofItems items).entries.Perm (firsts (Item.marks 0 items)) :=
  List.mergeSort_perm _ _

/-- **A look-up finds the first label with the name.** -/
theorem lookup_ofItems (items : List Item) (name : String) :
    (ofItems items).lookup name = Item.firstMark name 0 items := by
  -- no name is repeated, so a look-up does not depend on the order that the sorting left
  have hp := entries_perm items
  have hnd := nodup_firsts (Item.marks 0 items)
  have hu : ∀ e ∈ firsts (Item.marks 0 items), ∀ f ∈ firsts (Item.marks 0 items),
      e.1 = name → f.1 = name → e = f :=
    fun e he f hf hen hfn => List.inj_on_of_nodup_map hnd he hf (hen.trans hfn.symm)
  unfold lookup Item.firstMark
  rw [← find?_firsts (Item.marks 0 items), find?_key_congr hu fun e _ => hp.mem_iff.symm]

end Labels

end RegisterMachine
