import RegisterMachine.Proofs.Echo
import RegisterMachine.Proofs.Numerals

/-!
# Which constants are read back

A constant is printed as an atom or between quotes. As an atom it is read back if it is not a number
beyond the finite ones. Between quotes it is read back if nothing in it had to be escaped: source
text has no escapes, so what is read goes to the next quote, and that is never the symbol that was
printed. If the symbol holds a quote itself, the text that is read ends there; if not, the escapes
make it longer than the symbol.
-/

namespace RegisterMachine

namespace Text

/-! ## Escapes -/

theorem escape_of_none {c : Char} (h : escape? c = none) : escape c = [c] := by
  rw [escape, h]
  rfl

/-- An escape is a backslash with one character behind it, a quote only for the quote itself, or a
code point in hexadecimal. -/
theorem escape?_eq_some {c : Char} {cs : List Char} (h : escape? c = some cs) :
    (∃ d, cs = ['\\', d] ∧ (d = '"' → c = '"')) ∨
      cs = "\\u\x7b".toList ++ Nat.toDigits 16 c.toNat ++ ['}'] := by
  unfold escape? at h
  split at h
  -- the characters with an escape of their own come first
  case h_7 =>
    split at h
    · exact Or.inr (Option.some.inj h).symm
    · exact absurd h (by simp)
  all_goals exact Or.inl ⟨_, (Option.some.inj h).symm, by decide⟩

theorem two_le_length_of_escape? {c : Char} {cs : List Char} (h : escape? c = some cs) :
    2 ≤ cs.length := by
  rcases escape?_eq_some h with ⟨d, rfl, _⟩ | rfl
  · exact Nat.le_refl 2
  · have hopen : "\\u\x7b".toList.length = 3 := rfl
    rw [List.length_append, List.length_append, hopen]
    omega

theorem mem_toDigits {b n : Nat} (hb : 1 < b) :
    ∀ {c : Char}, c ∈ Nat.toDigits b n → ∃ k, c = Nat.digitChar k := by
  induction n using Nat.strongRecOn with
  | ind n ih =>
    intro c hc
    by_cases hn : n < b
    · rw [Nat.toDigits_of_lt_base hn] at hc
      exact ⟨n, List.mem_singleton.mp hc⟩
    · rw [Nat.toDigits_of_base_le hb (Nat.le_of_not_lt hn)] at hc
      rcases List.mem_append.mp hc with h | h
      · exact ih (n / b) (Nat.div_lt_self (by omega) hb) h
      · exact ⟨_, List.mem_singleton.mp h⟩

/-- Only the escape of the quote holds a quote. -/
theorem quote_not_mem_escape {c : Char} (hc : c ≠ '"') : '"' ∉ escape c := by
  intro hmem
  unfold escape at hmem
  cases he : escape? c with
  | none =>
      rw [he, Option.getD_none] at hmem
      exact hc (List.mem_singleton.mp hmem).symm
  | some cs =>
      rw [he, Option.getD_some] at hmem
      rcases escape?_eq_some he with ⟨d, rfl, hd⟩ | rfl
      · rcases List.mem_cons.mp hmem with h | h
        · exact absurd h (by decide)
        · exact hc (hd (List.mem_singleton.mp h).symm)
      · rcases List.mem_append.mp hmem with h | h
        · rcases List.mem_append.mp h with h | h
          · exact absurd h (by decide)
          · -- no digit of any base is a quote
            obtain ⟨k, hk⟩ := mem_toDigits (by decide) h
            exact absurd hk.symm (by simp)
        · exact absurd h (by decide)

theorem flatMap_escape_of_none {cs : List Char} (h : ∀ c ∈ cs, escape? c = none) :
    cs.flatMap escape = cs := by
  induction cs with
  | nil => rfl
  | cons c cs ih =>
      obtain ⟨hc, hcs⟩ := List.forall_mem_cons.mp h
      rw [List.flatMap_cons, escape_of_none hc, ih hcs]
      rfl

theorem length_le_flatMap_escape (cs : List Char) : cs.length ≤ (cs.flatMap escape).length := by
  induction cs with
  | nil => exact Nat.le_refl 0
  | cons c cs ih =>
      rw [List.flatMap_cons, List.length_append, List.length_cons]
      have hc : 1 ≤ (escape c).length := by
        unfold escape
        cases he : escape? c with
        | none => exact Nat.le_refl 1
        | some e =>
            have := two_le_length_of_escape? he
            rw [Option.getD_some]
            omega
      omega

/-- An escape makes a text longer. -/
theorem length_lt_flatMap_escape {c : Char} {cs : List Char} (hmem : c ∈ cs)
    (hc : escape? c ≠ none) : cs.length < (cs.flatMap escape).length := by
  obtain ⟨e, he⟩ := Option.ne_none_iff_exists'.mp hc
  have htwo := two_le_length_of_escape? he
  obtain ⟨front, back, rfl⟩ := List.append_of_mem hmem
  have hfront := length_le_flatMap_escape front
  have hback := length_le_flatMap_escape back
  rw [List.flatMap_append, List.flatMap_cons, escape, he, Option.getD_some]
  simp only [List.length_append, List.length_cons]
  omega

/-- **What is read of an escaped text, up to the next quote, is never the text itself.** -/
theorem takeWhile_flatMap_escape_ne {c : Char} {cs : List Char} (hmem : c ∈ cs)
    (hc : escape? c ≠ none) : (cs.flatMap escape).takeWhile (· ≠ '"') ≠ cs := by
  intro heq
  have hall : ∀ d ∈ cs, d ≠ '"' := by
    intro d hd
    rw [← heq] at hd
    exact of_decide_eq_true (List.all_eq_true.mp List.all_takeWhile d hd)
  -- without a quote in it the text is escaped without one, and all of that is read
  have hnone : ∀ d ∈ cs.flatMap escape, decide (d ≠ '"') = true := by
    intro d hd
    obtain ⟨x, hx, hdx⟩ := List.mem_flatMap.mp hd
    exact decide_eq_true fun h => quote_not_mem_escape (hall x hx) (h ▸ hdx)
  rw [List.takeWhile_eq_self_iff.mpr hnone] at heq
  exact absurd (congrArg List.length heq) (Nat.ne_of_gt (length_lt_flatMap_escape hmem hc))

end Text

namespace Value

/-! ## Sameness -/

theorem same_comm (v w : Value) : v.same w = w.same v := by
  cases v <;> cases w <;> try rfl
  · next x y =>
    show x.same y = y.same x
    rw [Bool.eq_iff_iff, Number.Double.same_iff, Number.Double.same_iff]
    simp only [and_comm]
  all_goals exact Bool.beq_comm

/-! ## Constants -/

/-- The values that source text has constants for, if only in print. -/
def Literal : Value → Prop
  | number _ | bool _ | symbol _ => True
  | unassigned | position _ => False

/-- A constant whose text is read as that constant. -/
def Legible : Value → Prop
  | number n => (ofAtom n.text).same (number n) = true
  | bool _ => True
  | symbol s => needsQuotes s = false ∨ ∀ c ∈ s.toList, Text.escape? c = none
  | unassigned | position _ => False

theorem isAtom_of_needsQuotes {s : String} (h : needsQuotes s = false) : Token.IsAtom s := by
  unfold needsQuotes at h
  rw [Bool.or_eq_false_iff, Bool.or_eq_false_iff] at h
  obtain ⟨⟨hempty, hany⟩, _⟩ := h
  refine ⟨?_, ?_⟩
  · intro he
    rw [he] at hempty
    exact absurd hempty (by decide)
  · intro c hc
    have hclear := List.any_eq_false.mp hany c hc
    simp only [Bool.or_eq_true, not_or, Bool.not_eq_true] at hclear
    obtain ⟨hblank, hdelim⟩ := hclear
    -- the blanks of the scanner are among those that need quotes
    have hgap : Token.isGap c = false := by
      rw [← Bool.not_eq_true]
      intro hgap
      simp only [Token.isGap, Bool.or_eq_true, decide_eq_true_eq] at hgap
      rcases hgap with (((rfl | rfl) | rfl) | rfl) | rfl <;> exact absurd hblank (by decide)
    simp only [isDelimiter, Bool.or_eq_false_iff, decide_eq_false_iff_not] at hdelim
    obtain ⟨⟨⟨hopen, hclose⟩, hquote⟩, hsemi⟩ := hdelim
    exact Token.isAtomic_iff.mpr ⟨hgap, hopen, hclose, hquote, hsemi⟩

theorem ofAtom_of_needsQuotes {s : String} (h : needsQuotes s = false) : ofAtom s = symbol s := by
  unfold needsQuotes at h
  simp only [Bool.or_eq_false_iff, decide_eq_false_iff_not, ne_eq, Decidable.not_not] at h
  exact h.2

theorem needsQuotes_of_quote_mem {s : String} (h : '"' ∈ s.toList) : needsQuotes s = true := by
  unfold needsQuotes
  rw [List.any_eq_true.mpr ⟨'"', h, by decide⟩, Bool.or_true, Bool.true_or]

end Value

namespace Reading

/-- An atom is read as the constant that it spells. -/
theorem finds_constant_atom {a : String} (ha : Token.IsAtom a) {cs : List Char}
    (hcs : Token.Stops cs) : Finds constant (a.toList ++ cs) (· = Value.ofAtom a) cs := by
  refine (finds_token (Token.words_atom ha hcs) (by simp)).bind ?_
  intro t ht
  obtain ⟨hk, htext⟩ := Word.mk.inj ht
  rw [hk, htext]
  exact Finds.pure rfl

/-- What stands between two quotes is read as a symbol. -/
theorem finds_constant_string {body : List Char} (hbody : '"' ∉ body) (cs : List Char) :
    Finds constant ('"' :: (body ++ '"' :: cs)) (· = Value.symbol (String.ofList body)) cs := by
  refine (finds_token (Token.words_string hbody cs) (by simp)).bind ?_
  intro t ht
  obtain ⟨hk, htext⟩ := Word.mk.inj ht
  rw [hk, htext]
  refine Finds.pure ?_
  simp [unquote]

theorem append_quote_eq (l cs : List Char) :
    ∃ cs', l ++ '"' :: cs = l.takeWhile (· ≠ '"') ++ '"' :: cs' := by
  induction l with
  | nil => exact ⟨cs, rfl⟩
  | cons c l ih =>
      by_cases hc : c = '"'
      · refine ⟨l ++ '"' :: cs, ?_⟩
        rw [hc, List.takeWhile_cons_of_neg (by simp)]
        rfl
      · obtain ⟨cs', h⟩ := ih
        refine ⟨cs', ?_⟩
        rw [List.takeWhile_cons_of_pos (by simpa using hc), List.cons_append, h]
        rfl

/-- Quoted text is always read as a constant, made of what stands before the next quote. -/
theorem finds_constant_quote (s : String) (cs : List Char) :
    ∃ cs', Finds constant ((Text.quote s).toList ++ cs)
      (· = Value.symbol (String.ofList ((s.toList.flatMap Text.escape).takeWhile (· ≠ '"')))) cs' := by
  obtain ⟨cs', hcs'⟩ := append_quote_eq (s.toList.flatMap Text.escape) cs
  have htext : (Text.quote s).toList ++ cs =
      '"' :: ((s.toList.flatMap Text.escape).takeWhile (· ≠ '"') ++ '"' :: cs') := by
    rw [Text.quote, String.toList_ofList, ← hcs']
    simp
  rw [htext]
  exact ⟨cs', finds_constant_string (Token.not_mem_takeWhile_ne _ _) cs'⟩

/-- Text that is quoted without an escape is read as it is. -/
theorem finds_constant_quote_self {s : String} (h : ∀ c ∈ s.toList, Text.escape? c = none)
    (cs : List Char) :
    Finds constant ((Text.quote s).toList ++ cs) (· = Value.symbol s) cs := by
  have htext : (Text.quote s).toList ++ cs = '"' :: (s.toList ++ '"' :: cs) := by
    rw [Text.quote, String.toList_ofList, Text.flatMap_escape_of_none h]
    simp
  have hbody : '"' ∉ s.toList := by
    intro hmem
    exact absurd (h _ hmem) (by decide)
  have hfinds := finds_constant_string hbody cs
  rw [String.ofList_toList] at hfinds
  rw [htext]
  exact hfinds

/-- **A constant is echoed exactly if it is legible.** -/
theorem echoes_constant {v : Value} (hv : v.Literal) {cs : List Char} (hcs : Token.Stops cs) :
    Echoes constant (v.text.toList ++ cs) (v.same · = true) v.Legible cs := by
  cases v with
  | unassigned => exact absurd hv (by simp [Value.Literal])
  | position k => exact absurd hv (by simp [Value.Literal])
  | bool b =>
      refine Finds.echoes ?_ trivial
      cases b with
      | true =>
          refine (finds_constant_atom (a := "true") (by decide) hcs).imp ?_
          rintro w rfl
          rfl
      | false =>
          refine (finds_constant_atom (a := "false") (by decide) hcs).imp ?_
          rintro w rfl
          rfl
  | number n =>
      have hfinds := finds_constant_atom n.isAtom_text hcs
      refine ⟨?_, ?_⟩
      · intro hL
        refine hfinds.imp ?_
        rintro w rfl
        rw [Value.same_comm]
        exact hL
      · intro hL c w c' hc h hsame
        obtain ⟨rfl, _⟩ := hfinds.answer hc h
        rw [Value.same_comm] at hsame
        exact hL hsame
  | symbol s =>
      rw [Value.text]
      by_cases hq : Value.needsQuotes s = true
      · rw [if_pos hq]
        refine ⟨?_, ?_⟩
        · rintro (hL | hL)
          · exact absurd (hq.symm.trans hL) (by simp)
          · refine (finds_constant_quote_self hL cs).imp ?_
            rintro w rfl
            exact beq_self_eq_true s
        · intro hL c w c' hc h hsame
          -- something is escaped, so what stands before the next quote is not the symbol
          obtain ⟨d, hd, hesc⟩ : ∃ d ∈ s.toList, Text.escape? d ≠ none := by
            by_contra hnone
            refine hL (Or.inr fun d hd => ?_)
            by_contra hesc
            exact hnone ⟨d, hd, hesc⟩
          obtain ⟨cs', hfinds⟩ := finds_constant_quote s cs
          obtain ⟨rfl, _⟩ := hfinds.answer hc h
          have heq := congrArg String.toList (eq_of_beq hsame)
          rw [String.toList_ofList] at heq
          exact Text.takeWhile_flatMap_escape_ne hd hesc heq.symm
      · rw [if_neg hq]
        rw [Bool.not_eq_true] at hq
        refine Finds.echoes ?_ (Or.inl hq)
        refine (finds_constant_atom (Value.isAtom_of_needsQuotes hq) hcs).imp ?_
        rintro w rfl
        rw [Value.ofAtom_of_needsQuotes hq]
        exact beq_self_eq_true s

end Reading

end RegisterMachine
