import RegisterMachine.Operation.Basic

/-!
# The binding that a name has

A table of operations is put together from several lists of bindings and answers by number. Seen by
name it is simply the first binding: whatever is installed later, and under whatever names, the
binding found for a name is the first one in the order of installation.
-/

namespace RegisterMachine.Operations

variable {t : Operations} {name : String} {id : Nat}

/-- The first binding of a name. -/
def find? (t : Operations) (name : String) : Option Binding :=
  t.bindings.find? (·.name = name)

theorem lookup_lt (h : t.lookup name = some id) : id < t.size := by
  obtain ⟨hlt, _⟩ := List.findIdx?_eq_some_iff_getElem.mp h
  exact hlt

/-- What a name is looked up for is its first binding. -/
theorem bind_lookup (t : Operations) (name : String) :
    (t.lookup name).bind t.get? = t.find? name := by
  unfold find?
  rw [List.find?_eq_bind_findIdx?_getElem?]
  rfl

/-- The number that a name has is the number of its first binding. -/
theorem get?_of_lookup (h : t.lookup name = some id) :
    ∃ b, t.get? id = some b ∧ t.find? name = some b ∧ b.name = name := by
  obtain ⟨hlt, hp, _⟩ := List.findIdx?_eq_some_iff_getElem.mp h
  refine ⟨t.bindings[id], List.getElem?_eq_getElem hlt, ?_, by simpa using hp⟩
  rw [← bind_lookup, h]
  exact List.getElem?_eq_getElem hlt

theorem find?_isSome : (t.find? name).isSome = t.binds name := by
  unfold find? binds
  rw [Bool.eq_iff_iff]
  simp

/-! ## Installing -/

theorem size_install_le (t : Operations) (b : Binding) : t.size ≤ (t.install b).size := by
  unfold install
  split
  · exact Nat.le_refl _
  · simp [size]

theorem size_installAll_le (t : Operations) (bs : List Binding) :
    t.size ≤ (t.installAll bs).size := by
  induction bs generalizing t with
  | nil => exact Nat.le_refl _
  | cons b bs ih => exact Nat.le_trans (size_install_le t b) (ih (t.install b))

/-- Every binding in the table was there or was installed. -/
theorem mem_installAll {bs : List Binding} {b : Binding} (h : b ∈ (t.installAll bs).bindings) :
    b ∈ t.bindings ∨ b ∈ bs := by
  induction bs generalizing t with
  | nil => exact Or.inl h
  | cons c bs ih =>
      rcases ih (t := t.install c) h with hb | hb
      · unfold install at hb
        split at hb
        · exact Or.inl hb
        · rcases List.mem_append.mp hb with hb | hb
          · exact Or.inl hb
          · exact Or.inr (List.mem_cons.mpr (Or.inl (List.mem_singleton.mp hb)))
      · exact Or.inr (List.mem_cons_of_mem c hb)

/-- A binding that is installed answers for its name only if nothing did before. -/
theorem find?_install (t : Operations) (b : Binding) (name : String) :
    (t.install b).find? name = (t.find? name).or (if b.name = name then some b else none) := by
  unfold install
  split
  · next hb =>
      by_cases hn : b.name = name
      · rw [← find?_isSome, hn] at hb
        obtain ⟨c, hc⟩ := Option.isSome_iff_exists.mp hb
        rw [hc, Option.some_or]
      · rw [if_neg hn, Option.or_none]
  · by_cases hn : b.name = name
    · simp [find?, List.find?_append, hn]
    · simp [find?, List.find?_append, hn]

/-- **First bindings win.** A name stands for its first binding in the order of installation. -/
theorem find?_installAll (t : Operations) (bs : List Binding) (name : String) :
    (t.installAll bs).find? name = (t.bindings ++ bs).find? (·.name = name) := by
  induction bs generalizing t with
  | nil => rw [List.append_nil]; rfl
  | cons b bs ih =>
      -- a binding that is not installed has a name that was found further up
      show ((t.install b).installAll bs).find? name = _
      rw [ih, List.find?_append]
      have hb := find?_install t b name
      unfold find? at hb
      rw [hb, List.find?_append, List.find?_cons]
      by_cases hn : b.name = name
      · simp [hn]
      · simp [hn]

end RegisterMachine.Operations
