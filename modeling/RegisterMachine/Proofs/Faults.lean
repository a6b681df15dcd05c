import Mathlib.Data.List.Nodup
import RegisterMachine.Proofs.Bindings
import RegisterMachine.Proofs.Building
import RegisterMachine.Proofs.Grammar
import RegisterMachine.Proofs.Labels
import RegisterMachine.Proofs.Resolve

/-!
# The first fault of a description

A description becomes a machine exactly if it is well formed: its registers can be declared, no
instruction is malformed, and every name in an instruction stands for something. Otherwise the error
tells the first fault, registers before instructions and instructions from the top.

What is checked is laid out as a list of *demands* in the order of the checks, each with the error
that answers for it. A computation *settles* a list of demands if it succeeds when all are met and
fails with the error of the first one that is not. Every stage settles the demands of its own part,
and stages in sequence settle the lists put together, so each stage has one lemma and none of them
speaks of the others.

The demands are an account of the order only. That a description is well formed is said without
them, and so is what an error tells about the instruction it blames (`Instruction.Reports`).
-/

namespace RegisterMachine

/-! ## Demands -/

/-- A condition, and the error of a description that fails it. -/
structure Demand where
  holds : Prop
  error : ConfigError

namespace Demand

def AllMet (ds : List Demand) : Prop := ∀ d ∈ ds, d.holds

/-- The first demand that is not met has this error. -/
def FirstUnmet (e : ConfigError) : List Demand → Prop
  | [] => False
  | d :: ds => (¬ d.holds ∧ d.error = e) ∨ (d.holds ∧ FirstUnmet e ds)

variable {d : Demand} {ds ds' : List Demand} {e e' : ConfigError} {α β : Type}

theorem allMet_nil : AllMet [] := fun _ h => absurd h List.not_mem_nil

theorem allMet_cons : AllMet (d :: ds) ↔ d.holds ∧ AllMet ds := List.forall_mem_cons

theorem allMet_append : AllMet (ds ++ ds') ↔ AllMet ds ∧ AllMet ds' := List.forall_mem_append

theorem allMet_flatMap {f : α → List Demand} {l : List α} :
    AllMet (l.flatMap f) ↔ ∀ x ∈ l, AllMet (f x) := List.forall_mem_flatMap

theorem FirstUnmet.exists_mem (h : FirstUnmet e ds) : ∃ d ∈ ds, ¬ d.holds ∧ d.error = e := by
  induction ds with
  | nil => exact absurd h id
  | cons d ds ih =>
      rcases h with h | ⟨_, h⟩
      · exact ⟨d, List.mem_cons_self, h⟩
      · obtain ⟨d', hmem, hd'⟩ := ih h
        exact ⟨d', List.mem_cons_of_mem d hmem, hd'⟩

theorem FirstUnmet.not_allMet (h : FirstUnmet e ds) : ¬ AllMet ds := by
  obtain ⟨d, hmem, hd, _⟩ := h.exists_mem
  intro hall
  exact hd (hall d hmem)

theorem FirstUnmet.unique (h : FirstUnmet e ds) (h' : FirstUnmet e' ds) : e = e' := by
  induction ds with
  | nil => exact absurd h id
  | cons d ds ih =>
      rcases h with ⟨hd, he⟩ | ⟨hd, h⟩
      · rcases h' with ⟨_, he'⟩ | ⟨hd', _⟩
        · exact he.symm.trans he'
        · exact absurd hd' hd
      · rcases h' with ⟨hd', _⟩ | ⟨_, h'⟩
        · exact absurd hd hd'
        · exact ih h h'

theorem firstUnmet_append :
    FirstUnmet e (ds ++ ds') ↔ FirstUnmet e ds ∨ (AllMet ds ∧ FirstUnmet e ds') := by
  induction ds with
  | nil => simp [FirstUnmet, allMet_nil]
  | cons d ds ih =>
      rw [List.cons_append, FirstUnmet, FirstUnmet, ih, allMet_cons, and_or_left, or_assoc,
        and_assoc]

/-- In a list of demands that are made part by part, the parts above the fault are in order. -/
theorem firstUnmet_flatMap {f : α → List Demand} {l : List α} :
    FirstUnmet e (l.flatMap f) ↔ ∃ above x below, l = above ++ x :: below ∧
      (∀ y ∈ above, AllMet (f y)) ∧ FirstUnmet e (f x) := by
  induction l with
  | nil => simp [FirstUnmet]
  | cons y l ih =>
      rw [List.flatMap_cons, firstUnmet_append, ih]
      refine ⟨?_, ?_⟩
      · rintro (h | ⟨hy, above, x, below, rfl, habove, hx⟩)
        · exact ⟨[], y, l, rfl, fun _ hz => absurd hz List.not_mem_nil, h⟩
        · refine ⟨y :: above, x, below, rfl, ?_, hx⟩
          exact List.forall_mem_cons.mpr ⟨hy, habove⟩
      · rintro ⟨above, x, below, hl, habove, hx⟩
        cases above with
        | nil =>
            obtain ⟨rfl, rfl⟩ := List.cons.inj hl
            exact Or.inl hx
        | cons z above =>
            obtain ⟨rfl, rfl⟩ := List.cons.inj hl
            obtain ⟨hy, habove⟩ := List.forall_mem_cons.mp habove
            exact Or.inr ⟨hy, above, x, below, rfl, habove, hx⟩

/-! ### Settling demands -/

/-- The computation succeeds if all demands are met, and fails with the error of the first that is
not. -/
def Settles (x : Except ConfigError α) (ds : List Demand) : Prop :=
  match x with
  | .ok _ => AllMet ds
  | .error e => FirstUnmet e ds

variable {x : Except ConfigError α}

theorem Settles.ok_iff (h : Settles x ds) : (∃ a, x = .ok a) ↔ AllMet ds := by
  cases x with
  | ok a => exact ⟨fun _ => h, fun _ => ⟨a, rfl⟩⟩
  | error e =>
      have hnot : ¬ AllMet ds := FirstUnmet.not_allMet h
      exact ⟨fun ⟨_, ha⟩ => absurd ha (by simp), fun hall => absurd hall hnot⟩

theorem Settles.error_iff (h : Settles x ds) : x = .error e ↔ FirstUnmet e ds := by
  cases x with
  | ok a =>
      have hall : AllMet ds := h
      exact ⟨fun ha => absurd ha (by simp), fun he => absurd hall he.not_allMet⟩
  | error e' =>
      have he' : FirstUnmet e' ds := h
      refine ⟨?_, ?_⟩
      · intro he
        rw [← Except.error.inj he]
        exact he'
      · intro he
        rw [he'.unique he]

theorem settles_ok (a : α) : Settles (.ok a) [] := allMet_nil

/-- Behind a demand that is not met no other is checked. -/
theorem settles_unmet (he : d.error = e) (h : ¬ d.holds) :
    Settles (.error e : Except ConfigError α) (d :: ds) := Or.inl ⟨h, he⟩

/-- A demand that is met need not be checked. -/
theorem Settles.cons (h : Settles x ds) (hd : d.holds) : Settles x (d :: ds) := by
  cases x with
  | ok a => exact allMet_cons.mpr ⟨hd, h⟩
  | error e => exact Or.inr ⟨hd, h⟩

/-- A look-up that fails where the demand does. -/
theorem settles_lookup {o : Option Nat} (hd : d.holds ↔ ∃ n, o = some n)
    (hsome : ∀ n, o = some n → Settles x ds) (hnone : o = none → x = .error d.error) :
    Settles x (d :: ds) := by
  cases ho : o with
  | some n => exact (hsome n ho).cons (hd.mpr ⟨n, ho⟩)
  | none =>
      have hunmet : ¬ d.holds := by
        intro h
        obtain ⟨n, hn⟩ := hd.mp h
        exact absurd (ho.symm.trans hn) (by simp)
      rw [hnone ho]
      exact settles_unmet rfl hunmet

theorem Settles.bind {f : α → Except ConfigError β} (hx : Settles x ds)
    (hf : ∀ a, x = .ok a → Settles (f a) ds') : Settles (x >>= f) (ds ++ ds') := by
  cases x with
  | error e => exact firstUnmet_append.mpr (Or.inl hx)
  | ok a =>
      have hall : AllMet ds := hx
      have ha : Settles (f a) ds' := hf a rfl
      show Settles (f a) (ds ++ ds')
      cases hfa : f a with
      | ok b =>
          rw [hfa] at ha
          exact allMet_append.mpr ⟨hall, ha⟩
      | error e =>
          rw [hfa] at ha
          exact firstUnmet_append.mpr (Or.inr ⟨hall, ha⟩)

theorem Settles.bind_pure {f : α → β} (hx : Settles x ds) :
    Settles (x >>= fun a => pure (f a)) ds := by
  cases x with
  | ok a => exact hx
  | error e => exact hx

theorem Settles.map {f : α → β} (hx : Settles x ds) : Settles (x.map f) ds := by
  cases x with
  | ok a => exact hx
  | error e => exact hx

end Demand

/-! ## Well-formed descriptions -/

/-- A name in a controller, with what it is the name of. -/
inductive Mention where
  | register (name : String)
  | label (name : String)
  | operation (name : String)

/-- The error for a name that stands for nothing, in an instruction that begins with `verb`. -/
def Mention.error (verb : Verb) : Mention → ConfigError
  | register name => .unknownRegister name verb
  | label name => .unknownLabel name verb
  | operation name => .unknownOperation name verb

mutual

def Expr.mentions : Expr → List Mention
  | .const _ => []
  | .reg name => [.register name]
  | .label name => [.label name]
  | .op name inputs => .operation name :: Expr.inputsMentions inputs

def Expr.inputsMentions : List Expr → List Mention
  | [] => []
  | x :: xs => x.mentions ++ Expr.inputsMentions xs

end

theorem Expr.mem_inputsMentions {xs : List Expr} {m : Mention} :
    m ∈ inputsMentions xs ↔ ∃ x ∈ xs, m ∈ x.mentions := by
  induction xs with
  | nil => simp [inputsMentions]
  | cons x xs ih => rw [inputsMentions, List.mem_append, ih]; simp

namespace Instruction

/-- All names in an instruction. -/
def mentions (i : Instruction) : List Mention :=
  i.reg?.toList.map .register ++ i.expr?.toList.flatMap Expr.mentions

/-- The register that an instruction writes. -/
def target? : Instruction → Option String
  | assign r _ | restore r => some r
  | test _ | branch _ | goto _ | save _ | perform _ => none

end Instruction

/-- Instruction `i` is malformed in this way. -/
def Malformation.At (i : Instruction) : Malformation → Prop
  | counterTarget => i.target? = some "pc"
  | testCondition => ∃ e, i = .test e ∧ e.isOperation = false
  | branchTarget => ∃ e, i = .branch e ∧ ∀ name, e ≠ .label name
  | gotoTarget => ∃ e, i = .goto e ∧ (∀ name, e ≠ .label name) ∧ ∀ name, e ≠ .reg name
  | performAction => ∃ e, i = .perform e ∧ e.isOperation = false
  | nestedOperation => ∃ e, i.expr? = some e ∧ ∃ x ∈ e.inputs, x.isOperation = true

/-- Names that registers of one machine can have, besides the counter and the flag. -/
structure Declarable (names : List String) : Prop where
  distinct : names.Nodup
  pc : "pc" ∉ names
  flag : "flag" ∉ names

/-- An instruction of which everything means something, where the names that mean something are
given. -/
structure Instruction.WellFormed (known : Mention → Prop) (i : Instruction) : Prop where
  shape : ∀ why : Malformation, ¬ why.At i
  names : ∀ m ∈ i.mentions, known m

/-- What an error says about an instruction: that this name in it stands for nothing, or that it is
malformed in this way. -/
inductive Instruction.Reports (known : Mention → Prop) (i : Instruction) : ConfigError → Prop where
  | unknown {m : Mention} (hm : m ∈ i.mentions) (h : ¬ known m) : Reports known i (m.error i.verb)
  | malformed {why : Malformation} (h : why.At i) : Reports known i (.malformed i why)

namespace Description

/-- The names that stand for something: declared registers and the two of every machine, labels
anywhere in the controller, installed operations and the one that every machine has. -/
def Knows (d : Description) (bindings : List Binding) : Mention → Prop
  | .register name => name = "pc" ∨ name = "flag" ∨ name ∈ d.registers
  | .label name => Item.label name ∈ d.controller
  | .operation name => name = Operations.initializeStackName ∨ ∃ b ∈ bindings, b.name = name

structure WellFormed (d : Description) (bindings : List Binding) : Prop where
  registers : Declarable d.registers
  instructions : ∀ i ∈ Item.instructions d.controller, i.WellFormed (d.Knows bindings)

end Description

/-! ## The demands of an instruction -/

section Instructions

variable (known : Mention → Prop) (i : Instruction)

def Mention.demand (m : Mention) : Demand := ⟨known m, m.error i.verb⟩

def Malformation.demand (why : Malformation) : Demand := ⟨¬ why.At i, .malformed i why⟩

/-- Demands on an input in instruction `i`. -/
def Expr.inputDemands : Expr → List Demand
  | .const _ => []
  | .reg name => [(Mention.register name).demand known i]
  | .label name => [(Mention.label name).demand known i]
  | .op .. => [Malformation.nestedOperation.demand i]

/-- Demands on the expression of instruction `i`: an operation before its inputs. -/
def Expr.demands : Expr → List Demand
  | .op name inputs =>
    (Mention.operation name).demand known i :: inputs.flatMap (inputDemands known i)
  | e => inputDemands known i e

/-- What may be wrong with instructions that begin with a word, apart from their inputs. -/
def Verb.malformation? : Verb → Option Malformation
  | assign | restore => some .counterTarget
  | test => some .testCondition
  | branch => some .branchTarget
  | goto => some .gotoTarget
  | perform => some .performAction
  | save => none

/-- Demands on an instruction: its own register, its shape, its expression. -/
def Instruction.demands : List Demand :=
  i.reg?.toList.map (fun r => (Mention.register r).demand known i) ++
    (i.verb.malformation?.toList.map (Malformation.demand i) ++
      i.expr?.elim [] (Expr.demands known i))

end Instructions

section Meeting

variable {known : Mention → Prop} {i : Instruction}

namespace Expr

/-- A demand on an input speaks of a name in it, or of a malformation. -/
theorem mem_inputDemands {x : Expr} {d : Demand} (h : d ∈ x.inputDemands known i) :
    (∃ m ∈ x.mentions, d = m.demand known i) ∨ ∃ why : Malformation, d = why.demand i := by
  cases x with
  | const v => exact absurd h List.not_mem_nil
  | reg name => exact Or.inl ⟨_, List.mem_cons_self, List.mem_singleton.mp h⟩
  | label name => exact Or.inl ⟨_, List.mem_cons_self, List.mem_singleton.mp h⟩
  | op name inputs => exact Or.inr ⟨_, List.mem_singleton.mp h⟩

theorem mem_demands {e : Expr} {d : Demand} (h : d ∈ e.demands known i) :
    (∃ m ∈ e.mentions, d = m.demand known i) ∨ ∃ why : Malformation, d = why.demand i := by
  cases e with
  | const | reg | label => exact mem_inputDemands h
  | op name inputs =>
      rcases List.mem_cons.mp h with rfl | h
      · exact Or.inl ⟨_, List.mem_cons_self, rfl⟩
      · obtain ⟨x, hx, hdx⟩ := List.mem_flatMap.mp h
        rcases mem_inputDemands hdx with ⟨m, hm, hdm⟩ | hwhy
        · have hall : m ∈ inputsMentions inputs := mem_inputsMentions.mpr ⟨x, hx, hm⟩
          exact Or.inl ⟨m, List.mem_cons_of_mem _ hall, hdm⟩
        · exact Or.inr hwhy

theorem known_of_inputDemands {x : Expr} {m : Mention} (hm : m ∈ x.mentions)
    (h : Demand.AllMet (x.inputDemands known i)) (hop : x.isOperation = false) : known m := by
  cases x with
  | const v => exact absurd hm List.not_mem_nil
  | reg name =>
      obtain rfl := List.mem_singleton.mp hm
      exact h _ List.mem_cons_self
  | label name =>
      obtain rfl := List.mem_singleton.mp hm
      exact h _ List.mem_cons_self
  | op name inputs => exact absurd hop (by simp [isOperation])

/-- Names further down than the inputs would be names in an operation among them. -/
theorem known_of_demands {e : Expr} {m : Mention} (hm : m ∈ e.mentions)
    (h : Demand.AllMet (e.demands known i)) (hflat : ∀ x ∈ e.inputs, x.isOperation = false) :
    known m := by
  cases e with
  | const | reg | label => exact known_of_inputDemands (i := i) hm h rfl
  | op name inputs =>
      obtain ⟨hname, hinputs⟩ := Demand.allMet_cons.mp h
      rcases List.mem_cons.mp hm with rfl | hm
      · exact hname
      · obtain ⟨x, hx, hmx⟩ := mem_inputsMentions.mp hm
        exact known_of_inputDemands hmx (Demand.allMet_flatMap.mp hinputs x hx) (hflat x hx)

end Expr

namespace Instruction

theorem mem_demands {d : Demand} (hd : d ∈ i.demands known) :
    (∃ m ∈ i.mentions, d = m.demand known i) ∨ ∃ why : Malformation, d = why.demand i := by
  rcases List.mem_append.mp hd with h | h
  · obtain ⟨r, hr, rfl⟩ := List.mem_map.mp h
    exact Or.inl ⟨_, List.mem_append_left _ (List.mem_map_of_mem hr), rfl⟩
  · rcases List.mem_append.mp h with h | h
    · obtain ⟨why, _, rfl⟩ := List.mem_map.mp h
      exact Or.inr ⟨why, rfl⟩
    · cases he : i.expr? with
      | none => rw [he] at h; exact absurd h List.not_mem_nil
      | some e =>
          rw [he] at h
          rcases Expr.mem_demands h with ⟨m, hm, hdm⟩ | hwhy
          · have hmem : e ∈ i.expr?.toList := Option.mem_toList.mpr he
            have hmention : m ∈ i.mentions :=
              List.mem_append_right _ (List.mem_flatMap.mpr ⟨e, hmem, hm⟩)
            exact Or.inl ⟨m, hmention, hdm⟩
          · exact Or.inr hwhy

/-- The error of a demand that is not met tells a fault of the instruction. -/
theorem reports_of_firstUnmet {e : ConfigError} (h : Demand.FirstUnmet e (i.demands known)) :
    i.Reports known e := by
  obtain ⟨d, hmem, hd, rfl⟩ := h.exists_mem
  rcases mem_demands hmem with ⟨m, hm, rfl⟩ | ⟨why, rfl⟩
  · exact .unknown hm hd
  · exact .malformed (not_not.mp hd)

/-- Only inputs can be malformed in an instruction of any kind. -/
theorem malformation?_of_at {why : Malformation} (h : why.At i)
    (hne : why ≠ .nestedOperation) : i.verb.malformation? = some why := by
  cases why with
  | counterTarget =>
      have htarget : i.target? = some "pc" := h
      cases i with
      | assign | restore => rfl
      | test | branch | goto | save | perform => exact absurd htarget (by simp [target?])
  | testCondition => obtain ⟨e, rfl, _⟩ := h; rfl
  | branchTarget => obtain ⟨e, rfl, _⟩ := h; rfl
  | gotoTarget => obtain ⟨e, rfl, _⟩ := h; rfl
  | performAction => obtain ⟨e, rfl, _⟩ := h; rfl
  | nestedOperation => exact absurd rfl hne

/-- The demands on an instruction are met exactly if it is well formed. -/
theorem allMet_demands : Demand.AllMet (i.demands known) ↔ i.WellFormed known := by
  refine ⟨?_, ?_⟩
  · intro h
    obtain ⟨hreg, h⟩ := Demand.allMet_append.mp h
    obtain ⟨hshape, hexprs⟩ := Demand.allMet_append.mp h
    have hexpr {e : Expr} (he : i.expr? = some e) : Demand.AllMet (e.demands known i) := by
      rw [he] at hexprs
      exact hexprs
    -- an operation among the inputs has a demand of its own, which it fails
    have hflat : ¬ Malformation.nestedOperation.At i := by
      rintro ⟨e, he, x, hx, hop⟩
      have hall := hexpr he
      cases e with
      | const | reg | label => exact absurd hx List.not_mem_nil
      | op name inputs =>
          have hinputs := (Demand.allMet_cons.mp hall).2
          cases x with
          | const | reg | label => exact absurd hop (by simp [Expr.isOperation])
          | op name' inputs' =>
              have hnested := Demand.allMet_flatMap.mp hinputs _ hx _ List.mem_cons_self
              exact hnested ⟨_, he, _, hx, hop⟩
    refine ⟨?_, ?_⟩
    · intro why hat
      by_cases hne : why = .nestedOperation
      · subst hne
        exact hflat hat
      · have hverb := malformation?_of_at hat hne
        have hmem : why ∈ i.verb.malformation?.toList := Option.mem_toList.mpr hverb
        exact hshape _ (List.mem_map_of_mem hmem) hat
    · intro m hm
      rcases List.mem_append.mp hm with hm | hm
      · obtain ⟨r, hr, rfl⟩ := List.mem_map.mp hm
        exact hreg _ (List.mem_map_of_mem hr)
      · obtain ⟨e, he, hm⟩ := List.mem_flatMap.mp hm
        have he' : i.expr? = some e := Option.mem_toList.mp he
        refine Expr.known_of_demands hm (hexpr he') ?_
        intro x hx
        rw [← Bool.not_eq_true]
        exact fun hop => hflat ⟨e, he', x, hx, hop⟩
  · intro h d hd
    rcases mem_demands hd with ⟨m, hm, rfl⟩ | ⟨why, rfl⟩
    · exact h.names m hm
    · exact h.shape why

end Instruction

end Meeting

/-! ## Resolution settles them -/

/-- A scope in which exactly these names stand for something, and "pc" for the counter. -/
structure Scope.Knows (s : Scope) (known : Mention → Prop) : Prop where
  register : ∀ name, known (.register name) ↔ ∃ id, s.register name = some id
  label : ∀ name, known (.label name) ↔ ∃ p, s.label name = some p
  operation : ∀ name, known (.operation name) ↔ ∃ op, s.operation name = some op
  counter : ∀ {name id}, s.register name = some id → (id = Registers.counter ↔ name = "pc")

namespace Instruction

open Demand (Settles settles_ok settles_unmet settles_lookup)

variable {known : Mention → Prop} {s : Scope} {i : Instruction} {name : String}

theorem register_settles (hs : s.Knows known) :
    Settles (i.register s name) [(Mention.register name).demand known i] := by
  refine settles_lookup (hs.register name) ?_ ?_
  · intro id hid
    rw [register, hid]
    exact settles_ok id
  · intro hid
    rw [register, hid]
    rfl

theorem position_settles (hs : s.Knows known) :
    Settles (i.position s name) [(Mention.label name).demand known i] := by
  refine settles_lookup (hs.label name) ?_ ?_
  · intro p hp
    rw [position, hp]
    exact settles_ok p
  · intro hp
    rw [position, hp]
    rfl

theorem target_settles (hs : s.Knows known) (hi : i.target? = some name) :
    Settles (i.target s name)
      [(Mention.register name).demand known i, Malformation.counterTarget.demand i] := by
  refine (register_settles hs).bind fun id hid => ?_
  have hat : Malformation.counterTarget.At i ↔ id = Registers.counter := by
    rw [hs.counter (register_eq_ok.mp hid)]
    show i.target? = some "pc" ↔ _
    rw [hi, Option.some.injEq]
  by_cases hc : id = Registers.counter
  · rw [if_pos hc]
    exact settles_unmet rfl (not_not.mpr (hat.mpr hc))
  · rw [if_neg hc]
    exact (settles_ok id).cons (hc ∘ hat.mp)

theorem operand_settles (hs : s.Knows known) {x : Expr}
    (hx : x.isOperation = true → Malformation.nestedOperation.At i) :
    Settles (i.operand s x) (x.inputDemands known i) := by
  cases x with
  | const v => exact settles_ok _
  | reg name => exact (register_settles hs).map
  | label name => exact (position_settles hs).map
  | op name inputs => exact settles_unmet rfl (not_not.mpr (hx rfl))

theorem operands_settles (hs : s.Knows known) {xs : List Expr}
    (hxs : ∀ x ∈ xs, x.isOperation = true → Malformation.nestedOperation.At i) :
    Settles (i.operands s xs) (xs.flatMap (Expr.inputDemands known i)) := by
  induction xs with
  | nil => exact settles_ok _
  | cons x xs ih =>
      obtain ⟨hx, hxs⟩ := List.forall_mem_cons.mp hxs
      exact (operand_settles hs hx).bind fun _ _ => (ih hxs).bind_pure

theorem application_settles (hs : s.Knows known) {inputs : List Expr}
    (hi : i.expr? = some (.op name inputs)) :
    Settles (i.application s name inputs) ((Expr.op name inputs).demands known i) := by
  have hinputs : ∀ x ∈ inputs, x.isOperation = true → Malformation.nestedOperation.At i :=
    fun x hx hop => ⟨_, hi, x, hx, hop⟩
  refine settles_lookup (hs.operation name) ?_ ?_
  · intro op hop
    rw [application, hop]
    exact (operands_settles hs hinputs).map
  · intro hop
    rw [application, hop]
    rfl

/-- **An instruction is resolved by settling its demands.** -/
theorem resolve_settles (hs : s.Knows known) : Settles (i.resolve s) (i.demands known) := by
  cases i with
  | assign r e =>
      refine (target_settles hs rfl).bind fun _ _ => ?_
      cases e with
      | op name inputs => exact (application_settles hs rfl).bind_pure
      | const | reg | label =>
          refine (operand_settles hs ?_).bind_pure
          exact fun hop => absurd hop Bool.false_ne_true
  | test e =>
      cases e with
      | op name inputs =>
          refine ((application_settles hs rfl).map).cons ?_
          rintro ⟨e, he, hop⟩
          rw [← Instruction.test.inj he] at hop
          exact absurd hop.symm Bool.false_ne_true
      | const | reg | label => exact settles_unmet rfl (not_not.mpr ⟨_, rfl, rfl⟩)
  | perform e =>
      cases e with
      | op name inputs =>
          refine ((application_settles hs rfl).map).cons ?_
          rintro ⟨e, he, hop⟩
          rw [← Instruction.perform.inj he] at hop
          exact absurd hop.symm Bool.false_ne_true
      | const | reg | label => exact settles_unmet rfl (not_not.mpr ⟨_, rfl, rfl⟩)
  | branch e =>
      cases e with
      | label name =>
          refine ((position_settles hs).map).cons ?_
          rintro ⟨e, he, hlabel⟩
          exact hlabel name (Instruction.branch.inj he).symm
      | const | reg | op => exact settles_unmet rfl (not_not.mpr ⟨_, rfl, by simp⟩)
  | goto e =>
      cases e with
      | label name =>
          refine ((position_settles hs).map).cons ?_
          rintro ⟨e, he, hlabel, _⟩
          exact hlabel name (Instruction.goto.inj he).symm
      | reg name =>
          refine ((register_settles hs).map).cons ?_
          rintro ⟨e, he, _, hreg⟩
          exact hreg name (Instruction.goto.inj he).symm
      | const | op => exact settles_unmet rfl (not_not.mpr ⟨_, rfl, by simp, by simp⟩)
  | save r => exact (register_settles hs).map
  | restore r => exact (target_settles hs rfl).map

end Instruction

open Demand (Settles settles_ok settles_unmet AllMet FirstUnmet)

theorem Program.resolveAll_settles {known : Mention → Prop} {s : Scope} (hs : s.Knows known)
    (is : List Instruction) :
    Settles (resolveAll s is) (is.flatMap (Instruction.demands known)) := by
  induction is with
  | nil => exact settles_ok _
  | cons i is ih => exact (Instruction.resolve_settles hs).bind fun _ _ => ih.bind_pure

/-! ## Registers -/

/-- Demands on names that are to be declared where others are declared already. -/
def Registers.demands (taken : List String) : List String → List Demand
  | [] => []
  | name :: names => ⟨name ∉ taken, .duplicateRegister name⟩ :: demands (taken ++ [name]) names

namespace Registers

variable {r : Registers} {taken names : List String} {name : String} {e : ConfigError}

theorem allocate_settles :
    Settles (r.allocate name) [⟨name ∉ r.cells.map Register.name, .duplicateRegister name⟩] := by
  rw [allocate_eq]
  by_cases hname : name ∈ r.cells.map Register.name
  · rw [if_pos hname]
    exact settles_unmet rfl fun hfree => hfree hname
  · rw [if_neg hname]
    exact (settles_ok _).cons hname

theorem allocateAll_settles (names : List String) :
    Settles (r.allocateAll names) (demands (r.cells.map Register.name) names) := by
  induction names generalizing r with
  | nil => exact settles_ok _
  | cons name names ih =>
      refine allocate_settles.bind fun q hq => ?_
      -- the name that was allocated is taken for those behind it
      have hq' := ih (r := q)
      rw [(allocate_eq_ok hq).2, List.map_append] at hq'
      rw [(allocate_eq_ok hq).2]
      exact hq'

theorem names_of_allocateAll {r' : Registers} (h : r.allocateAll names = .ok r') :
    r'.cells.map Register.name = r.cells.map Register.name ++ names := by
  induction names generalizing r with
  | nil =>
      rw [← Except.ok.inj h]
      exact (List.append_nil _).symm
  | cons name names ih =>
      obtain ⟨q, ha, hq⟩ := bind_eq_ok.mp h
      rw [ih hq, (allocate_eq_ok ha).2, List.map_append, List.append_assoc]
      rfl

theorem nodup_concat (ht : taken.Nodup) : (taken ++ [name]).Nodup ↔ name ∉ taken := by
  rw [List.nodup_middle, List.append_nil, List.nodup_cons, and_iff_left ht]

theorem not_mem_of_nodup {below : List String} (h : (taken ++ name :: below).Nodup) :
    name ∉ taken := by
  intro hmem
  exact (List.nodup_cons.mp (List.nodup_middle.mp h)).1 (List.mem_append_left _ hmem)

theorem allMet_demands (ht : taken.Nodup) :
    AllMet (demands taken names) ↔ (taken ++ names).Nodup := by
  induction names generalizing taken with
  | nil => simpa [demands] using iff_of_true Demand.allMet_nil ht
  | cons name names ih =>
      have happend : taken ++ name :: names = taken ++ [name] ++ names := by simp
      rw [demands, Demand.allMet_cons]
      refine ⟨?_, ?_⟩
      · rintro ⟨hname, h⟩
        rw [happend]
        exact (ih ((nodup_concat ht).mpr hname)).mp h
      · intro h
        have hname : name ∉ taken := not_mem_of_nodup h
        rw [happend] at h
        exact ⟨hname, (ih ((nodup_concat ht).mpr hname)).mpr h⟩

theorem firstUnmet_demands (ht : taken.Nodup) :
    FirstUnmet e (demands taken names) ↔ ∃ above name below, names = above ++ name :: below ∧
      (taken ++ above).Nodup ∧ name ∈ taken ++ above ∧ e = .duplicateRegister name := by
  induction names generalizing taken with
  | nil => simp [demands, FirstUnmet]
  | cons name names ih =>
      rw [demands, FirstUnmet]
      refine ⟨?_, ?_⟩
      · rintro (⟨hname, rfl⟩ | ⟨hname, h⟩)
        · refine ⟨[], name, names, rfl, ?_, ?_, rfl⟩
          · rwa [List.append_nil]
          · rw [List.append_nil]
            exact not_not.mp hname
        · obtain ⟨above, name', below, rfl, hnd, hmem, he⟩ :=
            (ih ((nodup_concat ht).mpr hname)).mp h
          rw [List.append_assoc] at hnd hmem
          exact ⟨name :: above, name', below, rfl, hnd, hmem, he⟩
      · rintro ⟨above, name', below, hnames, hnd, hmem, rfl⟩
        cases above with
        | nil =>
            obtain ⟨rfl, rfl⟩ := List.cons.inj hnames
            rw [List.append_nil] at hmem
            exact Or.inl ⟨not_not.mpr hmem, rfl⟩
        | cons z above =>
            obtain ⟨rfl, rfl⟩ := List.cons.inj hnames
            have hname : name ∉ taken := not_mem_of_nodup hnd
            refine Or.inr ⟨hname, (ih ((nodup_concat ht).mpr hname)).mpr ?_⟩
            refine ⟨above, name', below, rfl, ?_, ?_, rfl⟩
            · rwa [List.append_assoc]
            · rwa [List.append_assoc]

end Registers

theorem declarable_iff {names : List String} :
    Declarable names ↔ (["pc", "flag"] ++ names).Nodup := by
  refine ⟨?_, ?_⟩
  · rintro ⟨hnd, hpc, hflag⟩
    simp [hnd, hpc, hflag]
  · intro h
    simp only [List.cons_append, List.nil_append, List.nodup_cons, List.mem_cons, not_or] at h
    exact ⟨h.2.2, h.1.2, h.2.1⟩

/-! ## Descriptions -/

theorem Item.firstMark_isSome {name : String} {above : Nat} {items : List Item} :
    (∃ p, firstMark name above items = some p) ↔ Item.label name ∈ items := by
  induction items generalizing above with
  | nil => simp [firstMark, marks]
  | cons x rest ih =>
      cases x with
      | label l =>
          rw [firstMark_label, List.mem_cons, Item.label.injEq]
          by_cases hl : l = name
          · simp [hl]
          · rw [if_neg hl, ih, or_iff_right fun h => hl h.symm]
      | instruction i =>
          rw [firstMark_instruction, ih]
          simp

theorem Operations.lookup_installAll_isSome {bindings : List Binding} {name : String} :
    (∃ op, (Operations.initial.installAll bindings).lookup name = some op) ↔
      name = initializeStackName ∨ ∃ b ∈ bindings, b.name = name := by
  rw [← Option.isSome_iff_exists, ← binds_eq_isSome_lookup, ← find?_isSome, find?_installAll,
    List.find?_isSome]
  refine ⟨?_, ?_⟩
  · rintro ⟨b, hb, hname⟩
    rcases List.mem_append.mp hb with hb | hb
    · obtain rfl := List.mem_singleton.mp hb
      exact Or.inl (of_decide_eq_true hname).symm
    · exact Or.inr ⟨b, hb, of_decide_eq_true hname⟩
  · rintro (rfl | ⟨b, hb, rfl⟩)
    · exact ⟨_, List.mem_append_left _ List.mem_cons_self, decide_eq_true rfl⟩
    · exact ⟨b, List.mem_append_right _ hb, decide_eq_true rfl⟩

namespace Description

variable {d : Description} {bindings : List Binding}

theorem knows_of {registers : Registers}
    (h : Registers.initial.allocateAll d.registers = .ok registers) :
    (Scope.of registers (Operations.initial.installAll bindings)
      (Labels.ofItems d.controller)).Knows (d.Knows bindings) := by
  have hstandard : registers.Standard := Registers.standard_initial.allocateAll h
  refine ⟨?_, ?_, ?_, ?_⟩
  · intro name
    show _ ↔ ∃ id, registers.lookup name = some id
    rw [← Option.ne_none_iff_exists', ne_eq, Registers.lookup_eq_none, not_not,
      Registers.names_of_allocateAll h]
    simp [Knows, Registers.initial]
  · intro name
    show _ ↔ ∃ p, (Labels.ofItems d.controller).lookup name = some p
    rw [Labels.lookup_ofItems, Item.firstMark_isSome]
    rfl
  · intro name
    exact Operations.lookup_installAll_isSome.symm
  · intro name id hid
    exact hstandard.eq_pc hid

/-- Demands on a description: its registers, and then its instructions one by one. -/
def demands (d : Description) (bindings : List Binding) : List Demand :=
  Registers.demands ["pc", "flag"] d.registers ++
    (Item.instructions d.controller).flatMap (Instruction.demands (d.Knows bindings))

theorem build_settles (d : Description) (bindings : List Binding) (settings : Settings) :
    Settles (d.build bindings settings) (d.demands bindings) := by
  rw [build_eq]
  refine (Registers.allocateAll_settles d.registers).bind fun registers hr => ?_
  unfold Program.ofController
  exact ((Program.resolveAll_settles (knows_of hr) _).bind_pure).bind_pure

/-- **A machine is built of every well-formed description, and of no other.** What the error tells
instead is the first fault: the first register that has a name given away above, or else, with all
registers declared, a fault of the first instruction that is not well formed. Of several faults in
it, the one that is demanded first. -/
theorem build_verdict (d : Description) (bindings : List Binding) (settings : Settings) :
    ((∃ m, d.build bindings settings = .ok m) ↔ d.WellFormed bindings) ∧
    ∀ e, d.build bindings settings = .error e ↔
      (∃ above name below, d.registers = above ++ name :: below ∧ Declarable above ∧
        (name ∈ above ∨ name = "pc" ∨ name = "flag") ∧ e = .duplicateRegister name) ∨
      (Declarable d.registers ∧ ∃ above i below,
        Item.instructions d.controller = above ++ i :: below ∧
        (∀ j ∈ above, j.WellFormed (d.Knows bindings)) ∧ ¬ i.WellFormed (d.Knows bindings) ∧
        i.Reports (d.Knows bindings) e ∧ FirstUnmet e (i.demands (d.Knows bindings))) := by
  have hsettles := build_settles d bindings settings
  have hreserved : ["pc", "flag"].Nodup := by decide
  have hregisters : AllMet (Registers.demands ["pc", "flag"] d.registers) ↔
      Declarable d.registers := (Registers.allMet_demands hreserved).trans declarable_iff.symm
  refine ⟨?_, fun e => ?_⟩
  · rw [hsettles.ok_iff, demands, Demand.allMet_append, hregisters, Demand.allMet_flatMap]
    refine ⟨?_, ?_⟩
    · rintro ⟨hr, hi⟩
      exact ⟨hr, fun i hmem => Instruction.allMet_demands.mp (hi i hmem)⟩
    · rintro ⟨hr, hi⟩
      exact ⟨hr, fun i hmem => Instruction.allMet_demands.mpr (hi i hmem)⟩
  · rw [hsettles.error_iff, demands, Demand.firstUnmet_append, hregisters,
      Registers.firstUnmet_demands hreserved, Demand.firstUnmet_flatMap]
    refine or_congr ?_ (and_congr_right fun _ => ?_)
    · refine exists_congr fun above => exists_congr fun name => exists_congr fun below => ?_
      have hname : name ∈ ["pc", "flag"] ++ above ↔ name ∈ above ∨ name = "pc" ∨ name = "flag" := by
        rw [List.mem_append, or_comm]
        simp
      rw [← declarable_iff, hname]
    · refine exists_congr fun above => exists_congr fun i => exists_congr fun below => ?_
      refine and_congr_right fun _ => and_congr ?_ ?_
      · exact forall₂_congr fun j _ => Instruction.allMet_demands
      · refine ⟨?_, fun h => h.2.2⟩
        intro h
        have hnot : ¬ i.WellFormed (d.Knows bindings) :=
          fun hi => h.not_allMet (Instruction.allMet_demands.mpr hi)
        exact ⟨hnot, Instruction.reports_of_firstUnmet h, h⟩

end Description

end RegisterMachine
