import RegisterMachine.State.Registers

/-!
# Registers by name and by number

Programs know registers by number and everybody else knows them by name. The two views agree
because numbers are given out once: a look-up answers the first cell with the name, allocation only
ever adds cells at the end, and no change of content moves a name. What is shown here is the view by
name (`get?`) after each operation, so that no later argument has to look at cells.
-/

namespace RegisterMachine.Registers

variable {r r' : Registers} {name other : String} {id : Nat} {v : Value}

/-- A look-up that succeeds answers a cell with that name. -/
theorem name_of_lookup (h : r.lookup name = some id) :
    ∃ c, r.cells[id]? = some c ∧ c.name = name := by
  obtain ⟨hlt, hp, _⟩ := List.findIdx?_eq_some_iff_getElem.mp h
  exact ⟨r.cells[id], List.getElem?_eq_getElem hlt, by simpa using hp⟩

theorem lookup_lt (h : r.lookup name = some id) : id < r.size := by
  obtain ⟨hlt, _⟩ := List.findIdx?_eq_some_iff_getElem.mp h
  exact hlt

/-- **A number has one name.** -/
theorem lookup_inj (h : r.lookup name = some id) (h' : r.lookup other = some id) :
    name = other := by
  obtain ⟨c, hc, hn⟩ := name_of_lookup h
  obtain ⟨c', hc', hn'⟩ := name_of_lookup h'
  rw [hc] at hc'
  rw [← hn, ← hn', Option.some.inj hc']

/-! ## Contents by name -/

/-- **A change seen by name**: the register that was changed has the new content and every other
one the content it had. -/
theorem get?_set (h : r.lookup name = some id) (v : Value) (other : String) :
    (r.set id v).get? other = if other = name then some v else r.get? other := by
  unfold get?
  rw [lookup_set]
  by_cases ho : other = name
  · subst ho
    rw [if_pos rfl, h, Option.map_some, get_set_self (lookup_lt h)]
  · rw [if_neg ho]
    cases hid : r.lookup other with
    | none => rfl
    | some j =>
        have hne : id ≠ j := by
          intro he
          exact ho (lookup_inj hid (he ▸ h))
        rw [Option.map_some, Option.map_some, get_set_of_ne hne]

theorem get?_eq_some (h : r.lookup name = some id) : r.get? name = some (r.get id) := by
  unfold get?
  rw [h, Option.map_some]

/-! ## Allocation -/

theorem lookup_eq_none : r.lookup name = none ↔ name ∉ r.cells.map Register.name := by
  unfold lookup
  rw [List.findIdx?_eq_none_iff]
  simp

/-- **Allocation fails for a name that is there**, and else adds an unassigned cell. -/
theorem allocate_eq (r : Registers) (name : String) :
    r.allocate name = if name ∈ r.cells.map Register.name then .error (.duplicateRegister name)
      else .ok ⟨r.cells ++ [⟨name, .unassigned⟩]⟩ := by
  unfold allocate
  by_cases h : name ∈ r.cells.map Register.name
  · rw [if_pos h]
    cases hl : r.lookup name with
    | some id => rfl
    | none => exact absurd h (lookup_eq_none.mp hl)
  · rw [if_neg h, lookup_eq_none.mpr h]

/-- What an allocation that succeeds does: the name was free, and a cell is added at the end. -/
theorem allocate_eq_ok (h : r.allocate name = .ok r') :
    r.lookup name = none ∧ r' = ⟨r.cells ++ [⟨name, .unassigned⟩]⟩ := by
  unfold allocate at h
  cases hl : r.lookup name with
  | some id => rw [hl] at h; exact absurd h (by simp)
  | none => rw [hl] at h; exact ⟨rfl, (Except.ok.inj h).symm⟩

theorem size_allocate (h : r.allocate name = .ok r') : r'.size = r.size + 1 := by
  rw [(allocate_eq_ok h).2]
  simp [size]

/-- Allocation moves no name and no content. -/
theorem lookup_allocate (h : r.allocate name = .ok r') (other : String) :
    r'.lookup other = if other = name then some r.size else r.lookup other := by
  obtain ⟨hfree, rfl⟩ := allocate_eq_ok h
  unfold lookup at hfree ⊢
  rw [List.findIdx?_append]
  by_cases ho : other = name
  · subst ho
    rw [hfree]
    simp [size]
  · have hne : name ≠ other := fun he => ho he.symm
    simp [List.findIdx?_cons, ho, hne]

theorem get_allocate (h : r.allocate name = .ok r') : r'.get id = r.get id := by
  obtain ⟨_, rfl⟩ := allocate_eq_ok h
  unfold get
  -- beyond the end nothing was to be read, and what is added there is unassigned too
  rcases Nat.lt_trichotomy id r.cells.length with hlt | heq | hgt
  · rw [List.getElem?_append_left hlt]
  · subst heq
    simp
  · rw [List.getElem?_eq_none (by simp; omega), List.getElem?_eq_none (by omega)]

/-- A register that was just allocated is unassigned, and every other one is as it was. -/
theorem get?_allocate (h : r.allocate name = .ok r') (other : String) :
    r'.get? other = if other = name then some .unassigned else r.get? other := by
  unfold get?
  rw [lookup_allocate h other]
  by_cases ho : other = name
  · rw [if_pos ho, if_pos ho, Option.map_some, get_allocate h]
    simp [get, size]
  · rw [if_neg ho, if_neg ho]
    cases r.lookup other with
    | none => rfl
    | some j => rw [Option.map_some, Option.map_some, get_allocate h]

/-! ## The two registers of every machine -/

/-- The counter and the flag are known by their names. -/
structure Standard (r : Registers) : Prop where
  counter : r.lookup "pc" = some Registers.counter
  flag : r.lookup "flag" = some Registers.flag

theorem standard_initial : Standard initial := ⟨by decide, by decide⟩

/-- A new machine has the counter and the flag, and nothing in them. -/
theorem get?_initial (name : String) :
    initial.get? name = if name = "pc" ∨ name = "flag" then some .unassigned else none := by
  by_cases hpc : name = "pc"
  · subst hpc; rw [if_pos (Or.inl rfl)]; decide
  · by_cases hflag : name = "flag"
    · subst hflag; rw [if_pos (Or.inr rfl)]; decide
    · rw [if_neg (fun h => h.elim hpc hflag)]
      simp [get?, lookup, initial, Ne.symm hpc, Ne.symm hflag]

theorem Standard.set (h : Standard r) (id : Nat) (v : Value) : Standard (r.set id v) :=
  ⟨by rw [lookup_set]; exact h.counter, by rw [lookup_set]; exact h.flag⟩

theorem Standard.allocate (h : Standard r) (ha : r.allocate name = .ok r') : Standard r' := by
  have hfree := (allocate_eq_ok ha).1
  refine ⟨?_, ?_⟩
  · rw [lookup_allocate ha, if_neg]
    · exact h.counter
    · intro he; rw [← he, h.counter] at hfree; exact absurd hfree (by simp)
  · rw [lookup_allocate ha, if_neg]
    · exact h.flag
    · intro he; rw [← he, h.flag] at hfree; exact absurd hfree (by simp)

/-- A name is that of the counter exactly if it is looked up as number 0. -/
theorem Standard.eq_pc (h : Standard r) (hl : r.lookup name = some id) :
    id = Registers.counter ↔ name = "pc" := by
  refine ⟨?_, ?_⟩
  · intro he; subst he; exact lookup_inj hl h.counter
  · intro he; subst he; rw [h.counter] at hl; exact (Option.some.inj hl).symm

theorem Standard.counter_lt (h : Standard r) : Registers.counter < r.size := lookup_lt h.counter

theorem Standard.flag_lt (h : Standard r) : Registers.flag < r.size := lookup_lt h.flag

end RegisterMachine.Registers
