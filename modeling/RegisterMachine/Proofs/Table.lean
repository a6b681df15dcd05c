import Mathlib.Data.List.Dedup
import Mathlib.Data.Prod.Lex
import Mathlib.Data.String.Basic
import RegisterMachine.Proofs.Labels

/-!
# The table of labels is exact

A controller can be taken apart in two directions. Downwards, every label has the number of
instructions above it, and the first label with a name is the one that counts. Upwards, from the end,
the instructions are counted that lie below; a label is entered at what is left of all of them, and
an entry replaces an earlier one of the same name, so that the topmost is left. Both give the same
(`gather_add`), whatever labels are repeated, stand together or stand at the end.

The rest is about the list that is made of it, which has every name once and is sorted.
-/

namespace RegisterMachine

namespace Item

/-- The instruction on a line, if it is no label. -/
def instruction? : Item → Option Instruction
  | label _ => none
  | instruction i => some i

/-- The name on a line that is a label. -/
def label? : Item → Option String
  | label name => some name
  | instruction _ => none

theorem filterMap_instruction? (items : List Item) :
    items.filterMap instruction? = instructions items := by
  induction items with
  | nil => rfl
  | cons x rest ih =>
      cases x with
      | label l => exact ih
      | instruction i => exact congrArg (i :: ·) ih

theorem mem_filterMap_label? {name : String} {items : List Item} :
    name ∈ items.filterMap label? ↔ label name ∈ items := by
  rw [List.mem_filterMap]
  constructor
  · rintro ⟨x, hx, hname⟩
    cases x with
    | label l => rwa [← Option.some.inj hname]
    | instruction i => exact absurd hname (by simp [label?])
  · intro h
    exact ⟨_, h, rfl⟩

/-! ## The first label with a name -/

/-- **The first label with a name** stands below as many instructions as its position says. -/
theorem firstMark_eq_some {name : String} {items : List Item} {k : Nat} :
    firstMark name 0 items = some k ↔ ∃ before after, items = before ++ label name :: after
      ∧ label name ∉ before ∧ k = (instructions before).length := by
  induction items generalizing k with
  | nil => simp [firstMark, marks]
  | cons x rest ih =>
      cases x with
      | label l =>
          rw [firstMark_label]
          by_cases hl : l = name
          · rw [if_pos hl, ← hl]
            constructor
            · intro h
              exact ⟨[], rest, rfl, List.not_mem_nil, (Option.some.inj h).symm⟩
            · rintro ⟨before, after, hitems, hfirst, hk⟩
              cases before with
              | nil => rw [hk]; rfl
              | cons y before =>
                  obtain ⟨rfl, _⟩ := List.cons.inj hitems
                  exact absurd List.mem_cons_self hfirst
          · rw [if_neg hl, ih]
            constructor
            · rintro ⟨before, after, rfl, hfirst, hk⟩
              refine ⟨label l :: before, after, rfl, ?_, hk⟩
              simp [hfirst, Ne.symm hl]
            · rintro ⟨before, after, hitems, hfirst, hk⟩
              cases before with
              | nil => exact absurd (Item.label.inj (List.cons.inj hitems).1) hl
              | cons y before =>
                  obtain ⟨rfl, hrest⟩ := List.cons.inj hitems
                  exact ⟨before, after, hrest, fun hmem => hfirst (List.mem_cons_of_mem _ hmem), hk⟩
      | instruction i =>
          rw [firstMark_instruction, firstMark_succ, Option.map_eq_some_iff]
          constructor
          · rintro ⟨j, hj, rfl⟩
            obtain ⟨before, after, rfl, hfirst, rfl⟩ := ih.mp hj
            exact ⟨instruction i :: before, after, rfl, by simp [hfirst], rfl⟩
          · rintro ⟨before, after, hitems, hfirst, hk⟩
            cases before with
            | nil => exact absurd (List.cons.inj hitems).1 (by simp)
            | cons y before =>
                obtain ⟨rfl, hrest⟩ := List.cons.inj hitems
                have hbefore : label name ∉ before := fun hmem => hfirst (List.mem_cons_of_mem _ hmem)
                exact ⟨_, ih.mpr ⟨before, after, hrest, hbefore, rfl⟩, hk.symm⟩

theorem map_fst_marks (above : Nat) (items : List Item) :
    (marks above items).map Prod.fst = items.filterMap label? := by
  induction items generalizing above with
  | nil => rfl
  | cons x rest ih =>
      cases x with
      | label l => exact congrArg (l :: ·) (ih above)
      | instruction i => exact ih (above + 1)

/-! ## From the end -/

/-- What a pass from the end has gathered: the instructions, and the positions that were entered. -/
structure Gathered where
  instructions : List Instruction
  position : String → Option Nat

/-- A line is added on top. A label is entered at what remains of `total` instructions when those
below it are taken away. -/
def Gathered.add (g : Gathered) (total : Nat) (x : Item) : Gathered :=
  match x with
  | .label name =>
    { g with position := Function.update g.position name (some (total - g.instructions.length)) }
  | .instruction i => { g with instructions := i :: g.instructions }

/-- The whole pass, for a controller with `total` instructions. -/
def gather (total : Nat) (items : List Item) : Gathered :=
  items.foldr (fun x g => g.add total x) ⟨[], fun _ => none⟩

theorem gather_cons (total : Nat) (x : Item) (rest : List Item) :
    gather total (x :: rest) = (gather total rest).add total x := rfl

/-- What is gathered at some line are the instructions from there on, and the first labels. -/
theorem gather_add (above : Nat) (items : List Item) :
    gather (above + (instructions items).length) items
      = ⟨instructions items, fun name => firstMark name above items⟩ := by
  induction items generalizing above with
  | nil => rfl
  | cons x rest ih =>
      cases x with
      | label l =>
          rw [gather_cons, instructions, ih above]
          simp only [Gathered.add, Nat.add_sub_cancel, Gathered.mk.injEq, true_and]
          funext name
          rw [firstMark_label, Function.update_apply]
          by_cases hl : l = name
          · rw [if_pos hl, if_pos hl.symm]
          · rw [if_neg hl, if_neg (Ne.symm hl)]
      | instruction i =>
          have htotal : above + (instructions (instruction i :: rest)).length
              = above + 1 + (instructions rest).length := by
            rw [instructions, List.length_cons]
            omega
          rw [gather_cons, htotal, ih (above + 1)]
          rfl

end Item

/-! ## The list of labels -/

namespace Labels

/-- Where an entry stands in a listing: by position, then by name. -/
def rank (e : String × Nat) : Nat ×ₗ String := toLex (e.2, e.1)

theorem inOrder_iff {a b : String × Nat} : inOrder a b = true ↔ rank a ≤ rank b := by
  have hname : (compare a.1 b.1).isLE ↔ a.1 ≤ b.1 :=
    isLE_compareOfLessAndEq le_antisymm not_le le_total
  rw [inOrder, Bool.or_eq_true, Bool.and_eq_true, decide_eq_true_iff, decide_eq_true_iff, hname]
  exact (Prod.Lex.toLex_le_toLex (x := (a.2, a.1)) (y := (b.2, b.1))).symm

theorem pairwise_mergeSort_inOrder (es : List (String × Nat)) :
    (es.mergeSort inOrder).Pairwise fun a b => rank a ≤ rank b := by
  have htrans : ∀ a b c, inOrder a b → inOrder b c → inOrder a c := by
    intro a b c hab hbc
    rw [inOrder_iff] at hab hbc ⊢
    exact hab.trans hbc
  have htotal : ∀ a b, (inOrder a b || inOrder b a) = true := by
    intro a b
    rw [Bool.or_eq_true, inOrder_iff, inOrder_iff]
    exact le_total _ _
  exact (List.pairwise_mergeSort htrans htotal es).imp inOrder_iff.mp

variable (items : List Item)

theorem nodup_entries : ((ofItems items).entries.map Prod.fst).Nodup :=
  ((entries_perm items).map Prod.fst).nodup_iff.mpr (nodup_firsts _)

/-- **An entry is what a look-up of its name finds.** -/
theorem mem_entries {e : String × Nat} :
    e ∈ (ofItems items).entries ↔ (ofItems items).lookup e.1 = some e.2 := by
  have hu : ∀ x ∈ (ofItems items).entries, ∀ y ∈ (ofItems items).entries,
      x.1 = e.1 → y.1 = e.1 → x = y :=
    fun x hx y hy hxe hye => List.inj_on_of_nodup_map (nodup_entries items) hx hy (hxe.trans hye.symm)
  unfold lookup
  rw [Option.map_eq_some_iff]
  constructor
  · intro he
    exact ⟨e, (find?_key_eq_some_iff hu).mpr ⟨he, rfl⟩, rfl⟩
  · rintro ⟨x, hx, hposition⟩
    obtain ⟨hmem, hname⟩ := (find?_key_eq_some_iff hu).mp hx
    rwa [← Prod.ext hname hposition]

/-- A name is looked up with success if it labels something. -/
theorem lookup_isSome {name : String} :
    ((ofItems items).lookup name).isSome ↔ Item.label name ∈ items := by
  rw [lookup_ofItems, Item.firstMark, Option.isSome_map, List.find?_isSome,
    ← Item.mem_filterMap_label?, ← Item.map_fst_marks 0, List.mem_map]
  simp only [decide_eq_true_iff]

/-- Every name is listed, and no other. -/
theorem size_ofItems : (ofItems items).size = (items.filterMap Item.label?).dedup.length := by
  have hmem : ∀ name, name ∈ (ofItems items).entries.map Prod.fst
      ↔ name ∈ (items.filterMap Item.label?).dedup := by
    intro name
    rw [List.mem_dedup, Item.mem_filterMap_label?, ← lookup_isSome, Option.isSome_iff_exists,
      List.mem_map]
    constructor
    · rintro ⟨e, he, rfl⟩
      exact ⟨e.2, (mem_entries items).mp he⟩
    · rintro ⟨k, hk⟩
      exact ⟨(name, k), (mem_entries items).mpr hk, rfl⟩
  have hperm := (List.perm_ext_iff_of_nodup (nodup_entries items) (List.nodup_dedup _)).mpr hmem
  rw [← hperm.length_eq, List.length_map]
  rfl

/-- **The entries ascend**, by position and then by name, and none is listed twice. -/
theorem pairwise_entries :
    (ofItems items).entries.Pairwise fun a b => a.2 < b.2 ∨ a.2 = b.2 ∧ a.1 < b.1 := by
  have hsorted : (ofItems items).entries.Pairwise fun a b => rank a ≤ rank b :=
    pairwise_mergeSort_inOrder _
  have hdistinct : (ofItems items).entries.Pairwise fun a b => a.1 ≠ b.1 :=
    List.pairwise_map.mp (nodup_entries items)
  refine hsorted.imp₂ ?_ hdistinct
  intro a b hle hne
  have hrank : rank a ≠ rank b := fun he => hne (congrArg Prod.snd (toLex.injective he))
  exact Prod.Lex.toLex_lt_toLex.mp (lt_of_le_of_ne hle hrank)

/--
**Labels are extracted exactly.**

Of any controller, the instructions are kept in order, all of them once. A name is found at position
`k` exactly if it labels something and `k` instructions stand above the first label with that name.
There are as many labels as there are different names; they are listed with just the positions at
which they are found, each once, by position and then by name; and no position is beyond the end.

A pass from the end that enters labels at what remains, later entries replacing earlier ones,
gathers the same instructions and the same positions.
-/
theorem ofItems_exact :
    Item.instructions items = items.filterMap Item.instruction?
      ∧ (∀ name k, (ofItems items).lookup name = some k ↔
          ∃ before after, items = before ++ .label name :: after ∧ .label name ∉ before
            ∧ k = (before.filterMap Item.instruction?).length)
      ∧ (ofItems items).size = (items.filterMap Item.label?).dedup.length
      ∧ (∀ e, e ∈ (ofItems items).entries ↔ (ofItems items).lookup e.1 = some e.2)
      ∧ (ofItems items).entries.Pairwise (fun a b => a.2 < b.2 ∨ a.2 = b.2 ∧ a.1 < b.1)
      ∧ (∀ e ∈ (ofItems items).entries, e.2 ≤ (Item.instructions items).length)
      ∧ Item.gather (Item.instructions items).length items
        = ⟨Item.instructions items, (ofItems items).lookup⟩ := by
  refine ⟨(Item.filterMap_instruction? items).symm, ?_, size_ofItems items,
    fun e => mem_entries items, pairwise_entries items, ?_, ?_⟩
  · intro name k
    rw [lookup_ofItems, Item.firstMark_eq_some]
    simp only [Item.filterMap_instruction?]
  · intro e he
    have hfound := (mem_entries items).mp he
    rw [lookup_ofItems] at hfound
    exact Item.firstMark_le hfound
  · have h := Item.gather_add 0 items
    rw [Nat.zero_add] at h
    rw [h, funext (lookup_ofItems items)]

end Labels

end RegisterMachine
