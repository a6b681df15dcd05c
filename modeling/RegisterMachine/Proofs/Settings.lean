import Mathlib.Data.List.Forall2
import RegisterMachine.Command.Arguments
import RegisterMachine.Proofs.Atoms
import RegisterMachine.Proofs.Legible
import RegisterMachine.Proofs.Success

/-!
# Registers set on the command line

A register is set to what stands behind `name=`, where the name ends before the first `=`. The value
is the constant that the same text is in a source, with one exception (`Value.ofSetting_eq_ofAtom_iff`):
the words for an infinite double and for the one that is no number (`Number.Special`) are symbols in a
source, and on the command line they are those doubles.

The options of `run` are read one after the other, and some take the next argument with them, so an
argument alone does not tell whether it is an option. A list of arguments is therefore taken apart
into the options that it spells (`Command.Flag`).
-/

namespace RegisterMachine

namespace Number

/-- A word for an infinite double or for the one that is no number, in any mix of cases and with a
sign or without. -/
def Special (cs : List Char) : Prop :=
  ∃ sign w, Sign sign ∧ String.ofList (w.map Char.toLower) ∈ ["inf", "infinity", "nan"] ∧
    cs = sign ++ w

variable {cs : List Char} {n : Double}

theorem Special.readNumeral_eq_none (h : Special cs) : readNumeral cs = none := by
  obtain ⟨sign, w, hs, hw, rfl⟩ := h
  exact NearMiss.readNumeral_eq_none (.word hs hw)

/-- What is left behind the sign has to be one of three words. -/
theorem isSome_readWord_iff_mem : (readWord cs).isSome ↔
    String.ofList ((splitSign cs).2.map Char.toLower) ∈ ["inf", "infinity", "nan"] := by
  unfold readWord
  dsimp only
  generalize String.ofList ((splitSign cs).2.map Char.toLower) = word
  by_cases hinf : word = "inf" ∨ word = "infinity"
  · rw [if_pos hinf]
    exact iff_of_true rfl (by rcases hinf with rfl | rfl <;> decide)
  · rw [if_neg hinf]
    obtain ⟨hshort, hlong⟩ := not_or.mp hinf
    by_cases hnan : word = "nan"
    · rw [if_pos hnan, hnan]
      exact iff_of_true rfl (by decide)
    · rw [if_neg hnan]
      exact iff_of_false (by simp) (by simp [hshort, hlong, hnan])

/-- **The words that doubles are read from.** -/
theorem isSome_readWord : (readWord cs).isSome ↔ Special cs := by
  rw [isSome_readWord_iff_mem]
  constructor
  · intro h
    obtain ⟨sign, hs, hcs⟩ := exists_sign cs
    exact ⟨sign, _, hs, h, hcs⟩
  · intro h
    obtain ⟨sign, w, hs, hw, rfl⟩ := h
    obtain ⟨c, rest, rfl, hc⟩ := head_of_word hw
    obtain ⟨_, _, hsign⟩ := not_numeral_of_isAlpha hc
    rwa [splitSign_append hs (by simpa using hsign)]

/-- No word is read as a finite double. -/
theorem eq_of_readWord (h : readWord cs = some n) :
    n = .nan ∨ ∃ negative, n = .infinity negative := by
  unfold readWord at h
  dsimp only at h
  split at h
  · exact Or.inr ⟨_, (Option.some.inj h).symm⟩
  · split at h
    · exact Or.inl (Option.some.inj h).symm
    · exact absurd h (by simp)

end Number

namespace Value

open Number (Special readNumeral readWord)

variable {s : String}

/-! ## Settings and constants -/

theorem ofSetting_eq (s : String) :
    ofSetting s =
      if s = "true" then bool true
      else if s = "false" then bool false
      else match readNumeral s.toList with
        | some n => number n
        | none =>
          match readWord s.toList with
          | some n => number n
          | none => symbol s := by
  unfold ofSetting Number.readDouble
  cases readNumeral s.toList <;> rfl

theorem ofSetting_of_not_special (h : ¬ Special s.toList) : ofSetting s = ofAtom s := by
  have hword : readWord s.toList = none := by
    rw [← Option.not_isSome_iff_eq_none, Number.isSome_readWord]
    exact h
  rw [ofSetting_eq, ofAtom_eq]
  cases readNumeral s.toList with
  | some n => rfl
  | none => simp only [hword]

theorem ne_of_readWord {t : String} {n : Number.Double} (h : readWord s.toList = some n)
    (ht : readWord t.toList = none) : s ≠ t := by
  intro hs
  rw [hs, ht] at h
  exact absurd h (by simp)

/-- A special word is set as the double that it stands for. -/
theorem ofSetting_of_special (h : Special s.toList) :
    ∃ n, ofSetting s = number n ∧ (n = .nan ∨ ∃ negative, n = .infinity negative) := by
  obtain ⟨n, hn⟩ := Option.isSome_iff_exists.mp (Number.isSome_readWord.mpr h)
  refine ⟨n, ?_, Number.eq_of_readWord hn⟩
  rw [ofSetting_eq, if_neg (ne_of_readWord hn rfl), if_neg (ne_of_readWord hn rfl),
    h.readNumeral_eq_none, hn]

/-- A special word is a symbol in a source. -/
theorem ofAtom_of_special (h : Special s.toList) : ofAtom s = symbol s := by
  obtain ⟨n, hn⟩ := Option.isSome_iff_exists.mp (Number.isSome_readWord.mpr h)
  exact ofAtom_eq_symbol.mpr ⟨rfl, ne_of_readWord hn rfl, ne_of_readWord hn rfl,
    h.readNumeral_eq_none⟩

/-- **Settings are constants**, but for special words. -/
theorem ofSetting_eq_ofAtom_iff : ofSetting s = ofAtom s ↔ ¬ Special s.toList := by
  constructor
  · intro heq h
    obtain ⟨n, hn, _⟩ := ofSetting_of_special h
    have hnumeral := ofAtom_eq_number.mp (heq.symm.trans hn)
    rw [h.readNumeral_eq_none] at hnumeral
    exact absurd hnumeral (by simp)
  · exact ofSetting_of_not_special

end Value

namespace Command

open Token (takeWhile_append_of_stops dropWhile_append_of_stops not_mem_takeWhile_ne
  eq_of_mem_head?_dropWhile_ne)

/-! ## One setting -/

theorem readSetting_append {name : String} (hname : '=' ∉ name.toList) (value : String) :
    readSetting (name ++ "=" ++ value) = some (name, .ofSetting value) := by
  have htext : (name ++ "=" ++ value).toList = name.toList ++ '=' :: value.toList := by
    simp
  have hall : ∀ c ∈ name.toList, decide (c ≠ '=') = true := by
    intro c hc
    exact decide_eq_true fun h => hname (h ▸ hc)
  have hend : ∀ c ∈ ('=' :: value.toList).head?, decide (c ≠ '=') = false := by simp
  unfold readSetting
  rw [htext, takeWhile_append_of_stops hall hend, dropWhile_append_of_stops hall hend]
  simp

/-- **A setting is split at the first `=`.** -/
theorem exists_of_readSetting {s : String} {set : String × Value} (h : readSetting s = some set) :
    ∃ name value, '=' ∉ name.toList ∧ s = name ++ "=" ++ value := by
  unfold readSetting at h
  split at h
  · exact absurd h (by simp)
  · next c value hdrop =>
    have hhead : c ∈ (s.toList.dropWhile (· ≠ '=')).head? := by rw [hdrop]; rfl
    obtain rfl := eq_of_mem_head?_dropWhile_ne hhead
    refine ⟨.ofList (s.toList.takeWhile (· ≠ '=')), .ofList value, ?_, ?_⟩
    · simpa using not_mem_takeWhile_ne '=' s.toList
    · rw [← String.toList_inj]
      have htext := List.takeWhile_append_dropWhile (p := (· ≠ '=')) (l := s.toList)
      rw [hdrop] at htext
      simpa using htext.symm

/-! ## Options as they are written -/

/-- An option of `run` that can be read. -/
inductive Flag where
  | trace
  | balanced
  | limit (text : String) (steps : Nat) (hread : readLimit text = some steps)
  /-- A register with what it is set to. The name ends before the first `=`. -/
  | set (name value : String) (hname : '=' ∉ name.toList)

namespace Flag

/-- The arguments that an option takes up. -/
def arguments : Flag → List String
  | trace => ["--trace"]
  | balanced => ["--balanced"]
  | limit text _ _ => ["--limit", text]
  | set name value _ => ["--set", name ++ "=" ++ value]

/-- What an option adds to those before it. -/
def add (o : RunOptions) : Flag → RunOptions
  | trace => { o with showCounter := true }
  | balanced => { o with settings := { o.settings with balanced := true } }
  | limit _ steps _ => { o with settings := { o.settings with stepLimit := some steps } }
  | set name value _ => { o with sets := o.sets ++ [(name, .ofSetting value)] }

/-- The texts of the name and of the value, where a register is set. -/
def setting? : Flag → Option (String × String)
  | set name value _ => some (name, value)
  | trace | balanced | limit _ _ _ => none

end Flag

variable {o o' : RunOptions} {args rest : List String} {file file' : String}

/-- One option is read, and the reader goes on behind it. -/
theorem readOptions_arguments (flag : Flag) :
    readOptions o (flag.arguments ++ rest) = readOptions (flag.add o) rest := by
  cases flag with
  | trace => rfl
  | balanced => rfl
  | limit text steps hread =>
      simp only [Flag.arguments, List.cons_append, List.nil_append, readOptions, hread]
      rfl
  | set name value hname =>
      simp only [Flag.arguments, List.cons_append, List.nil_append, readOptions,
        readSetting_append hname]
      rfl

/-- Options are read one after the other. -/
theorem readOptions_flatMap (flags : List Flag) (o : RunOptions) :
    readOptions o (flags.flatMap Flag.arguments) = .ok (flags.foldl Flag.add o) := by
  induction flags generalizing o with
  | nil => rfl
  | cons flag flags ih => rw [List.flatMap_cons, readOptions_arguments, ih, List.foldl_cons]

/-- **Nothing but options is read.** -/
theorem exists_flags (h : readOptions o args = .ok o') :
    ∃ flags : List Flag, flags.flatMap Flag.arguments = args := by
  induction o, args using readOptions.induct with
  | case1 o => exact ⟨[], rfl⟩
  | case2 o rest ih =>
      obtain ⟨flags, rfl⟩ := ih h
      exact ⟨.trace :: flags, rfl⟩
  | case3 o rest ih =>
      obtain ⟨flags, rfl⟩ := ih h
      exact ⟨.balanced :: flags, rfl⟩
  | case4 o => exact absurd h nofun
  | case5 o text rest steps hread ih =>
      rw [readOptions, hread] at h
      obtain ⟨flags, rfl⟩ := ih h
      exact ⟨.limit text steps hread :: flags, rfl⟩
  | case6 o text rest hread =>
      rw [readOptions, hread] at h
      exact absurd h nofun
  | case7 o => exact absurd h nofun
  | case8 o text rest set hread ih =>
      rw [readOptions, hread] at h
      obtain ⟨name, value, hname, rfl⟩ := exists_of_readSetting hread
      obtain ⟨flags, rfl⟩ := ih h
      exact ⟨.set name value hname :: flags, rfl⟩
  | case9 o text rest hread =>
      rw [readOptions, hread] at h
      exact absurd h nofun
  | case10 o argument rest htrace hbalanced hlimit hset =>
      rw [readOptions] at h
      exacts [absurd h nofun, htrace, hbalanced, hlimit, hset]

/-- Settings are kept in their order, and no other option is one. -/
theorem sets_foldl_add (flags : List Flag) (o : RunOptions) :
    (flags.foldl Flag.add o).sets =
      o.sets ++ (flags.filterMap Flag.setting?).map fun given => (given.1, .ofSetting given.2) := by
  induction flags generalizing o with
  | nil => simp
  | cons flag flags ih =>
      rw [List.foldl_cons, ih]
      cases flag with
      | set name value hname => simp [Flag.add, Flag.setting?]
      | trace | balanced | limit => simp [Flag.add, List.filterMap_cons, Flag.setting?]

/-! ## What is stored -/

/-- What is stored for a register that was given as the two texts of a setting: the constant that
the same text is in a source, unless it is a special word. -/
structure Stored (given : String × String) (set : String × Value) : Prop where
  name : set.1 = given.1
  constant : set.2 = .ofAtom given.2 ↔ ¬ Number.Special given.2.toList
  source : Token.IsAtom given.2 → ∀ ⦃cs⦄, Token.Stops cs →
    Reading.Finds Reading.constant (given.2.toList ++ cs)
      (fun v => set.2 = v ↔ ¬ Number.Special given.2.toList) cs
  special : Number.Special given.2.toList → Value.ofAtom given.2 = .symbol given.2 ∧
    ∃ n, set.2 = .number n ∧ (n = .nan ∨ ∃ negative, n = .infinity negative)

theorem stored (given : String × String) : Stored given (given.1, .ofSetting given.2) where
  name := rfl
  constant := Value.ofSetting_eq_ofAtom_iff
  source hatom _ hcs := by
    refine (Reading.finds_constant_atom hatom hcs).imp ?_
    intro v hv
    rw [hv]
    exact Value.ofSetting_eq_ofAtom_iff
  special h := ⟨Value.ofAtom_of_special h, Value.ofSetting_of_special h⟩

/--
**A register is set to the constant of the same text, unless the text is a special word.**

A command line of `run` that is accepted is made of options, and however it is taken apart into
options, what is stored are its settings in their order. The value that stands behind the first `=`
is stored as the constant that it would be in a source exactly if it is no special word. A special
word would be a symbol there, and is stored as an infinite double or as the one that is no number.
-/
theorem sets_of_arguments (h : ofArguments ("run" :: file :: args) = .ok (.run file' o)) :
    (∃ flags : List Flag, flags.flatMap Flag.arguments = args) ∧
      ∀ flags : List Flag, flags.flatMap Flag.arguments = args →
        List.Forall₂ Stored (flags.filterMap Flag.setting?) o.sets := by
  obtain ⟨o', hread, ho⟩ := map_eq_ok.mp h
  obtain ⟨-, rfl⟩ := Command.run.inj ho
  refine ⟨exists_flags hread, ?_⟩
  intro flags hflags
  rw [← hflags, readOptions_flatMap] at hread
  rw [← Except.ok.inj hread, sets_foldl_add, List.nil_append, List.forall₂_map_right_iff,
    List.forall₂_same]
  intro given _
  exact stored given

/-- One register is set to a constant and the other to a special word. -/
theorem sets_of_arguments_special :
    ∃ o, ofArguments ["run", "p.rm", "--set", "x=a=b", "--trace", "--set", "y=-Inf"] =
        .ok (.run "p.rm" o) ∧
      List.Forall₂ Stored [("x", "a=b"), ("y", "-Inf")] o.sets := by
  have hread : ofArguments ["run", "p.rm", "--set", "x=a=b", "--trace", "--set", "y=-Inf"] =
      .ok (.run "p.rm" ⟨.default, true, [("x", .ofSetting "a=b"), ("y", .ofSetting "-Inf")]⟩) := rfl
  obtain ⟨_, hstored⟩ := sets_of_arguments hread
  exact ⟨_, hread, hstored [.set "x" "a=b" (by decide), .trace, .set "y" "-Inf" (by decide)] rfl⟩

/-- **The word for no number is set as that double**, though it is a symbol in a source. -/
theorem setting_nan_ne_constant :
    ∃ o, ofArguments ["run", "p.rm", "--set", "x=nan"] = .ok (.run "p.rm" o) ∧
      o.sets = [("x", .number .nan)] ∧ Value.ofAtom "nan" = .symbol "nan" :=
  ⟨_, rfl, rfl, rfl⟩

end Command

end RegisterMachine
