import RegisterMachine.Proofs.Alike

/-!
# Numbering cannot be observed

The numbers of registers and operations follow from the order in which they were listed, and no one
has a use for them but the machine. So it makes no difference in what order they are listed, nor that
further ones are listed which the controller does not name: a description is accepted or refused all
the same, with the same error, and a machine that is made of it runs the same.

Two accounts meet here. That the verdict is the same is shown on the demands of a description, which
speak of names only; that the runs are the same is shown by `Loaded.runsAlike`, for which all there is
to see of a table is what its names stand for.
-/

namespace RegisterMachine

/-! ## The same demands -/

section Demands

variable {known known' : Mention → Prop} {i : Instruction}

theorem Mention.demand_congr {x : Mention} (h : known x ↔ known' x) :
    x.demand known i = x.demand known' i := by
  unfold demand
  rw [propext h]

theorem Expr.inputDemands_congr {e : Expr} (h : ∀ x ∈ e.mentions, known x ↔ known' x) :
    e.inputDemands known i = e.inputDemands known' i := by
  cases e with
  | const | op => rfl
  | reg name => exact congrArg (· :: []) (Mention.demand_congr (h _ List.mem_cons_self))
  | label name => exact congrArg (· :: []) (Mention.demand_congr (h _ List.mem_cons_self))

theorem Expr.demands_congr {e : Expr} (h : ∀ x ∈ e.mentions, known x ↔ known' x) :
    e.demands known i = e.demands known' i := by
  cases e with
  | const | reg | label => exact inputDemands_congr (i := i) h
  | op name inputs =>
      have hname := Mention.demand_congr (i := i) (h (.operation name) List.mem_cons_self)
      have hinputs : inputs.flatMap (inputDemands known i) = inputs.flatMap (inputDemands known' i) := by
        refine List.flatMap_congr fun e he => inputDemands_congr fun x hx => ?_
        exact h x (List.mem_cons_of_mem _ (mem_inputsMentions.mpr ⟨e, he, hx⟩))
      rw [demands, demands, hname, hinputs]

/-- **The demands on an instruction depend on its own names only.** -/
theorem Instruction.demands_congr (h : ∀ x ∈ i.mentions, known x ↔ known' x) :
    i.demands known = i.demands known' := by
  have hreg : i.reg?.toList.map (fun r => (Mention.register r).demand known i)
      = i.reg?.toList.map (fun r => (Mention.register r).demand known' i) := by
    refine List.map_congr_left fun r hr => Mention.demand_congr ?_
    exact h _ (List.mem_append_left _ (List.mem_map_of_mem hr))
  have hexpr : i.expr?.elim [] (Expr.demands known i) = i.expr?.elim [] (Expr.demands known' i) := by
    cases he : i.expr? with
    | none => rfl
    | some e =>
        refine Expr.demands_congr fun x hx => h x (List.mem_append_right _ ?_)
        exact List.mem_flatMap.mpr ⟨e, Option.mem_toList.mpr he, hx⟩
  unfold demands
  rw [hreg, hexpr]

end Demands

/-! ## Descriptions in another order -/

/-- The registers and operations of one description are those of another in any order, together with
further registers and other operations that the controller does not name. -/
structure Description.Renumbers (d : Description) (bindings : List Binding) (further : List String)
    (others : List Binding) (d' : Description) (bindings' : List Binding) : Prop where
  controller : d'.controller = d.controller
  registers : d'.registers.Perm (d.registers ++ further)
  declarable : Declarable d'.registers
  operations : bindings'.Perm (bindings ++ others)
  distinct : (bindings.map Binding.name).Nodup
  unnamed : ∀ i ∈ Item.instructions d.controller, ∀ x ∈ i.mentions,
    (∀ name ∈ further, x ≠ .register name) ∧ ∀ b ∈ others, x ≠ .operation b.name

namespace Description.Renumbers

variable {d d' : Description} {bindings bindings' others : List Binding} {further : List String}

/-- What is declared on one side is declared on the other, but for the further ones. -/
theorem mem_registers (h : d.Renumbers bindings further others d' bindings') {name : String}
    (hname : name ∉ further) : name ∈ d'.registers ↔ name ∈ d.registers := by
  rw [h.registers.mem_iff, List.mem_append, or_iff_left hname]

theorem declarable_left (h : d.Renumbers bindings further others d' bindings') :
    Declarable d.registers := by
  have hnodup := (h.registers.nodup_iff.mp h.declarable.distinct).of_append_left
  have hmem : ∀ name ∈ d.registers, name ∈ d'.registers := fun name hname =>
    h.registers.mem_iff.mpr (List.mem_append_left _ hname)
  exact ⟨hnodup, fun hpc => h.declarable.pc (hmem _ hpc), fun hf => h.declarable.flag (hmem _ hf)⟩

/-- A name in the controller is known to both or to neither. -/
theorem knows_iff (h : d.Renumbers bindings further others d' bindings') {i : Instruction}
    {x : Mention} (hi : i ∈ Item.instructions d.controller) (hx : x ∈ i.mentions) :
    d.Knows bindings x ↔ d'.Knows bindings' x := by
  obtain ⟨hregister, hoperation⟩ := h.unnamed i hi x hx
  cases x with
  | register name =>
      have hname : name ∉ further := fun hmem => hregister name hmem rfl
      exact or_congr Iff.rfl (or_congr Iff.rfl (h.mem_registers hname).symm)
  | label name =>
      show Item.label name ∈ d.controller ↔ Item.label name ∈ d'.controller
      rw [h.controller]
  | operation name =>
      refine or_congr Iff.rfl (exists_congr fun b => ?_)
      rw [h.operations.mem_iff, List.mem_append]
      constructor
      · intro hb
        exact ⟨Or.inl hb.1, hb.2⟩
      · intro hb
        obtain ⟨hmem, hn⟩ := hb
        rcases hmem with hmem | hmem
        · exact ⟨hmem, hn⟩
        · exact absurd (congrArg Mention.operation hn.symm) (hoperation b hmem)

/-- A name in the controller is bound to the same on both sides. -/
theorem find?_eq (h : d.Renumbers bindings further others d' bindings') {i : Instruction}
    {name : String} (hi : i ∈ Item.instructions d.controller)
    (hx : Mention.operation name ∈ i.mentions) :
    (Operations.initial.installAll bindings).find? name
      = (Operations.initial.installAll bindings').find? name := by
  have hu : ∀ b ∈ bindings, ∀ c ∈ bindings, b.name = name → c.name = name → b = c :=
    fun b hb c hc hbn hcn => List.inj_on_of_nodup_map h.distinct hb hc (hbn.trans hcn.symm)
  have hm : ∀ b : Binding, b.name = name → (b ∈ bindings ↔ b ∈ bindings') := by
    intro b hn
    have hother : b ∉ others := by
      intro hmem
      exact (h.unnamed i hi _ hx).2 b hmem (congrArg Mention.operation hn.symm)
    rw [h.operations.mem_iff, List.mem_append, or_iff_left hother]
  rw [Operations.find?_installAll, Operations.find?_installAll, List.find?_append,
    List.find?_append, find?_key_congr hu hm]

/-- **The verdict is the same.** -/
theorem build_error_iff (h : d.Renumbers bindings further others d' bindings')
    (settings : Settings) (e : ConfigError) :
    d'.build bindings' settings = .error e ↔ d.build bindings settings = .error e := by
  have hreserved : ["pc", "flag"].Nodup := by decide
  have hmet : Demand.AllMet (Registers.demands ["pc", "flag"] d.registers) :=
    (Registers.allMet_demands hreserved).mpr (declarable_iff.mp h.declarable_left)
  have hmet' : Demand.AllMet (Registers.demands ["pc", "flag"] d'.registers) :=
    (Registers.allMet_demands hreserved).mpr (declarable_iff.mp h.declarable)
  have hinstructions : (Item.instructions d'.controller).flatMap
        (Instruction.demands (d'.Knows bindings'))
      = (Item.instructions d.controller).flatMap (Instruction.demands (d.Knows bindings)) := by
    rw [h.controller]
    refine List.flatMap_congr fun i hi => Instruction.demands_congr fun x hx => ?_
    exact (h.knows_iff hi hx).symm
  rw [(build_settles d bindings settings).error_iff, (build_settles d' bindings' settings).error_iff]
  unfold demands
  -- the registers are in order on both sides, and no others are demanded of the instructions
  rw [Demand.firstUnmet_append, Demand.firstUnmet_append, hinstructions,
    or_iff_right fun hf => hf.not_allMet hmet', or_iff_right fun hf => hf.not_allMet hmet,
    and_iff_right hmet, and_iff_right hmet']

/-- Neither the counter nor the flag is among the further registers. -/
theorem not_mem_further (h : d.Renumbers bindings further others d' bindings') {name : String}
    (hname : name ∉ d'.registers) : name ∉ further :=
  fun hmem => hname (h.registers.mem_iff.mpr (List.mem_append_right _ hmem))

variable {settings : Settings} {m m' : Machine}

/-- Machines that were just built are alike, by the names that both have. -/
theorem alike (h : d.Renumbers bindings further others d' bindings')
    (hm : d.build bindings settings = .ok m) (hm' : d'.build bindings' settings = .ok m') :
    m.Alike (· ∉ further) m' := by
  obtain ⟨hmade, _, hregister⟩ := Machine.made_of_build hm
  obtain ⟨hmade', _, hregister'⟩ := Machine.made_of_build hm'
  have hnames : ∀ name, name ∉ further → m.register? name = m'.register? name := by
    intro name hname
    simp only [hregister, hregister', h.mem_registers hname]
  exact ⟨hmade.settings.trans hmade'.settings.symm, hmade.phase.trans hmade'.phase.symm,
    hmade.steps.trans hmade'.steps.symm, hnames, hmade.stack.trans hmade'.stack.symm,
    hmade.tape.trans hmade'.tape.symm⟩

/-- Programs that were made of the controller on either side have the same text. -/
theorem sameText (h : d.Renumbers bindings further others d' bindings') {p p' : Program}
    (hi : p.instructions = Item.instructions d.controller)
    (hi' : p'.instructions = Item.instructions d'.controller)
    (hl : p.labels = Labels.ofItems d.controller) (hl' : p'.labels = Labels.ofItems d'.controller) :
    Machine.SameText (· ∉ further) (Operations.initial.installAll bindings)
      (Operations.initial.installAll bindings') p p' := by
  refine ⟨?_, ?_, h.not_mem_further h.declarable.pc, h.not_mem_further h.declarable.flag, ?_⟩
  · rw [hi, hi', h.controller]
  · rw [hl, hl', h.controller]
  · intro i hmem x hx
    rw [hi] at hmem
    cases x with
    | register name => exact fun hf => (h.unnamed i hmem _ hx).1 name hf rfl
    | label name => trivial
    | operation name => exact h.find?_eq hmem hx

end Description.Renumbers

/--
**Numbering cannot be observed.**

Take a description, operations under different names, and the same with the registers and the
operations in any order, to which others may have been added that the controller does not name.
Either both are refused with the same error or a machine is built of each. And then, whatever
registers are set on both, by name and to the same values, under the same settings their runs are the
same: turn by turn in the stage, an error included, the steps, the stack with its counts, the tape and
the contents of every register but the further ones, and in the result.
-/
theorem Description.numbering_unobservable {d d' : Description}
    {bindings bindings' others : List Binding} {further : List String}
    (h : d.Renumbers bindings further others d' bindings') (settings : Settings) :
    (∀ e, d'.build bindings' settings = .error e ↔ d.build bindings settings = .error e)
      ∧ ∀ m, d.build bindings settings = .ok m → ∃ m', d'.build bindings' settings = .ok m'
        ∧ ∀ sets, (m.setAll sets).RunsAlike (· ∉ further) (m'.setAll sets) := by
  refine ⟨h.build_error_iff settings, ?_⟩
  intro m hm
  cases hm' : d'.build bindings' settings with
  | error e =>
      have he := (h.build_error_iff settings e).mp hm'
      exact absurd (hm.symm.trans he) (by simp)
  | ok m' =>
      refine ⟨m', rfl, ?_⟩
      intro sets
      have hset := (Machine.made_of_build hm).1.setAll sets
      have hset' := (Machine.made_of_build hm').1.setAll sets
      obtain ⟨p, hloaded, hi, hl⟩ := hset.loaded
      obtain ⟨p', hloaded', hi', hl'⟩ := hset'.loaded
      have ht := h.sameText hi hi' hl hl'
      rw [← hset.operations, ← hset'.operations] at ht
      exact hloaded.runsAlike hloaded' ht ((h.alike hm hm').setAll sets)

/-- An operation that answers its first input. -/
def firstInput : Binding := ⟨"first", .host fun vs => .ok (.silent (vs.headD .unassigned))⟩

/-- An operation that answers how many inputs it has, in words. -/
def someInputs : Binding := ⟨"some", .host fun vs => .ok (.silent (.bool (vs.length ≠ 0)))⟩

/-- Copies a register by way of an operation, tests the copy and puts it aside. -/
def copying : List Item :=
  [.instruction (.assign "x" (.op "first" [.reg "y"])), .instruction (.test (.op "some" [.reg "x"])),
    .instruction (.save "x")]

theorem Description.numbering_unobservable_copying :
    ∃ m m', build ⟨["x", "y"], copying⟩ [firstInput, someInputs] .default = .ok m
      ∧ build ⟨["z", "y", "x"], copying⟩ [someInputs, firstInput, ⟨"spare", .initializeStack⟩] .default
        = .ok m'
      ∧ m.state.registers.lookup "x" = some 2 ∧ m'.state.registers.lookup "x" = some 4
      ∧ m.operations.lookup "first" = some 1 ∧ m'.operations.lookup "first" = some 2
      ∧ (m.setAll [("y", .symbol "a")]).RunsAlike (· ∉ ["z"]) (m'.setAll [("y", .symbol "a")]) := by
  have h : Renumbers ⟨["x", "y"], copying⟩ [firstInput, someInputs] ["z"]
      [⟨"spare", .initializeStack⟩] ⟨["z", "y", "x"], copying⟩
      [someInputs, firstInput, ⟨"spare", .initializeStack⟩] := by
    refine ⟨rfl, by decide, ⟨by decide, by decide, by decide⟩, .swap _ _ _, by decide, ?_⟩
    simp [copying, Item.instructions, Instruction.mentions, Instruction.reg?, Instruction.expr?,
      Expr.mentions, Expr.inputsMentions, or_imp, forall_and]
  have hnumbers : ((build ⟨["x", "y"], copying⟩ [firstInput, someInputs] .default).toOption.map
      fun m => (m.state.registers.lookup "x", m.operations.lookup "first")) = some (some 2, some 1) := by
    decide +kernel
  have hnumbers' : ((build ⟨["z", "y", "x"], copying⟩
      [someInputs, firstInput, ⟨"spare", .initializeStack⟩] .default).toOption.map
      fun m => (m.state.registers.lookup "x", m.operations.lookup "first")) = some (some 4, some 2) := by
    decide +kernel
  obtain ⟨m, hm, hn⟩ := Option.map_eq_some_iff.mp hnumbers
  obtain ⟨m', hm', hn'⟩ := Option.map_eq_some_iff.mp hnumbers'
  obtain ⟨_, hruns⟩ := numbering_unobservable h .default
  obtain ⟨m₁, hm₁, hall⟩ := hruns m (ok_of_toOption hm)
  obtain rfl : m₁ = m' := Except.ok.inj (hm₁.symm.trans (ok_of_toOption hm'))
  exact ⟨m, m₁, ok_of_toOption hm, hm₁, (Prod.mk.inj hn).1, (Prod.mk.inj hn').1, (Prod.mk.inj hn).2,
    (Prod.mk.inj hn').2, hall _⟩

end RegisterMachine
