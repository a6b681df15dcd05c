import Mathlib.Data.List.TakeWhile
import RegisterMachine.Proofs.Atoms

/-!
# Numbers are read back from their text

The text of a finite double is a numeral without an exponent, with digits on both sides of its
point if it has one. Read as a numeral it gives a decimal of the value that was written, and
rounding takes that back to the double. Only the sign of a zero is lost, which no program can see.

The words for the doubles that are not finite are atoms too, but no numerals.
-/

namespace RegisterMachine.Number

/-! ## Digits -/

theorem digitsValue_eq (ds : List Char) : digitsValue ds = Nat.ofDigitChars 10 ds 0 :=
  Nat.ofDigitChars_eq_foldl.symm

theorem isDigit_toDigits (n : Nat) : ∀ c ∈ Nat.toDigits 10 n, c.isDigit = true :=
  fun _ hc => Nat.isDigit_of_mem_toDigits (by decide) (by decide) hc

theorem isDigit_zeros (k : Nat) : ∀ c ∈ List.replicate k '0', c.isDigit = true := by
  intro c hc
  rw [(List.mem_replicate.mp hc).2]
  rfl

/-- A run of digits is a numeral. -/
theorem readUnsigned_digits {ds : List Char} (hds : Digits ds) (hne : ds ≠ []) :
    readUnsigned ds = some ⟨digitsValue ds, 0⟩ := by
  have hread := readUnsigned_whole hds hne announces_nil
  rw [List.append_nil] at hread
  exact hread

/-- Two runs of digits around a point are a numeral. -/
theorem readUnsigned_point {whole fraction : List Char} (hw : Digits whole) (hf : Digits fraction)
    (hne : whole ≠ []) :
    readUnsigned (whole ++ '.' :: fraction) =
      some ⟨digitsValue (whole ++ fraction), -fraction.length⟩ := by
  have hread := readUnsigned_around hw hf (List.append_ne_nil_of_left_ne_nil hne fraction)
    announces_nil.noDigit
  rw [List.append_nil] at hread
  rw [hread]
  simp [readExponent]

theorem splitSign_of_isDigit {c : Char} (hc : c.isDigit = true) (cs : List Char) :
    splitSign (c :: cs) = (false, c :: cs) := by
  unfold splitSign
  split
  · next h => cases h; exact absurd hc (by decide)
  · next h => cases h; exact absurd hc (by decide)
  · rfl

/-! ## Decimals -/

namespace Decimal

/-- **A decimal that is written out in full is read as one of the same rank.** -/
theorem readUnsigned_positional (d : Decimal) :
    ∃ d', readUnsigned d.positional = some d' ∧ d'.rank = d.rank := by
  obtain ⟨m, e⟩ := d
  have hds := isDigit_toDigits m
  have hvalue : digitsValue (Nat.toDigits 10 m) = m := by
    rw [digitsValue_eq, Nat.ofDigitChars_ten_toDigits]
  -- no point at all, a point among the digits, and a point in front of all of them
  unfold positional
  dsimp only
  split
  · next he =>
    refine ⟨_, readUnsigned_digits ?_ (by simp), ?_⟩
    · intro c hc
      rcases List.mem_append.mp hc with h | h
      · exact hds c h
      · exact isDigit_zeros _ c h
    · have hzeros : digitsValue (Nat.toDigits 10 m ++ List.replicate e.toNat '0') =
          m * Nat.pow 10 e.toNat := by
        rw [digitsValue_eq, Nat.ofDigitChars_append, Nat.ofDigitChars_ten_toDigits,
          Nat.ofDigitChars_replicate_zero]
        exact Nat.mul_comm _ _
      rw [hzeros, rank_mul_pow, Int.zero_add, Int.toNat_of_nonneg he]
  · next he =>
    split
    · next hlt =>
      refine ⟨_, readUnsigned_point ?_ ?_ ?_, ?_⟩
      · exact fun c hc => hds c (List.mem_of_mem_take hc)
      · exact fun c hc => hds c (List.mem_of_mem_drop hc)
      · intro h
        have := congrArg List.length h
        rw [List.length_take, List.length_nil] at this
        omega
      · rw [List.take_append_drop, hvalue, List.length_drop]
        congr 2
        omega
    · next hge =>
      generalize hk : (-e).toNat - (Nat.toDigits 10 m).length = k
      have hsplit : '0' :: '.' :: List.replicate k '0' ++ Nat.toDigits 10 m =
          ['0'] ++ '.' :: (List.replicate k '0' ++ Nat.toDigits 10 m) := rfl
      have hzeros : digitsValue (['0'] ++ (List.replicate k '0' ++ Nat.toDigits 10 m)) = m := by
        have hzero : Nat.ofDigitChars 10 ['0'] 0 = 0 := rfl
        rw [digitsValue_eq, Nat.ofDigitChars_append, hzero, Nat.ofDigitChars_append,
          Nat.ofDigitChars_replicate_zero, Nat.mul_zero, Nat.ofDigitChars_ten_toDigits]
      rw [hsplit]
      refine ⟨_, readUnsigned_point (isDigit_zeros 1) ?_ (by simp), ?_⟩
      · intro c hc
        rcases List.mem_append.mp hc with h | h
        · exact isDigit_zeros _ c h
        · exact hds c h
      · rw [hzeros, List.length_append, List.length_replicate]
        congr 2
        omega

/-- What is written of a decimal is digits and at most a point, and begins with a digit. -/
theorem positional_chars (d : Decimal) :
    (∃ c cs, d.positional = c :: cs ∧ c.isDigit = true) ∧
      ∀ c ∈ d.positional, c.isDigit = true ∨ c = '.' := by
  obtain ⟨m, e⟩ := d
  have hds := isDigit_toDigits m
  have hne : Nat.toDigits 10 m ≠ [] := Nat.toDigits_ne_nil
  unfold positional
  dsimp only
  generalize Nat.toDigits 10 m = ds at hds hne
  obtain ⟨c, cs, rfl⟩ := List.exists_cons_of_ne_nil hne
  have hc := hds c List.mem_cons_self
  split
  · refine ⟨⟨c, _, rfl, hc⟩, ?_⟩
    intro x hx
    rcases List.mem_append.mp hx with h | h
    · exact Or.inl (hds x h)
    · exact Or.inl (isDigit_zeros _ x h)
  · split
    · next hlt =>
      obtain ⟨k, hk⟩ : ∃ k, (c :: cs).length - (-e).toNat = k + 1 :=
        ⟨(c :: cs).length - (-e).toNat - 1, by omega⟩
      rw [hk]
      refine ⟨⟨c, _, rfl, hc⟩, ?_⟩
      intro x hx
      rcases List.mem_append.mp hx with h | h
      · exact Or.inl (hds x (List.mem_of_mem_take h))
      · rcases List.mem_cons.mp h with rfl | h
        · exact Or.inr rfl
        · exact Or.inl (hds x (List.mem_of_mem_drop h))
    · refine ⟨⟨'0', _, rfl, rfl⟩, ?_⟩
      intro x hx
      rcases List.mem_append.mp hx with h | h
      · rcases List.mem_cons.mp h with rfl | h
        · exact Or.inl rfl
        · rcases List.mem_cons.mp h with rfl | h
          · exact Or.inr rfl
          · exact Or.inl (isDigit_zeros _ x h)
      · exact Or.inl (hds x h)

end Decimal

/-! ## Doubles -/

namespace Double

theorem same_iff {x y : Double} :
    x.same y = true ↔ ∃ k, x.place? = some k ∧ y.place? = some k := by
  unfold same compare?
  cases x.place? with
  | none => simp
  | some a =>
      cases y.place? with
      | none => simp
      | some b =>
          dsimp only
          rw [decide_eq_true_eq, Option.some.injEq, Std.compare_eq_iff_eq]
          refine ⟨?_, ?_⟩
          · intro h; exact ⟨b, congrArg some h, rfl⟩
          · rintro ⟨k, ha, hb⟩; exact Option.some.inj (ha.trans hb.symm)

/-- Two doubles of one finite rank are the same if they have one sign or are zero. -/
theorem same_of_rank {x y : Double} (hrank : x.rank = y.rank) (hfin : y.rank < rankOfInfinity)
    (hsign : y.rank ≠ 0 → x.negative = y.negative) : x.same y = true := by
  have hnan : ¬rankOfInfinity < y.rank := Nat.not_lt.mpr (Nat.le_of_lt hfin)
  rw [same_iff]
  unfold place? isNaN
  rw [hrank]
  simp only [hnan, decide_false, Bool.false_eq_true, if_false]
  refine ⟨_, ?_, rfl⟩
  by_cases h0 : y.rank = 0
  · simp [h0]
  · rw [hsign h0]

/-- **The text of a finite double is a numeral for it.** -/
theorem readNumeral_text {x : Double} (h : x.rank < rankOfInfinity) :
    ∃ y, readNumeral x.text.toList = some y ∧ y.same x = true := by
  have hbits : x.rank < 1 <<< 63 := Nat.mod_lt _ (by decide)
  have hself := rankOfRatio_unitsOfRank h
  unfold text meaning
  rw [if_pos h]
  dsimp only
  by_cases h0 : unitsOfRank x.rank = 0
  -- a zero is written without its sign, and zeros of both signs are the same
  · rw [if_pos h0]
    have hrank : x.rank = 0 := by
      have hunit := shiftLeft_pos Nat.one_pos 1074
      rw [h0, rankOfRatio_zero hunit] at hself
      exact hself.symm
    refine ⟨ofRank false 0, rfl, same_of_rank ?_ h ?_⟩
    · rw [rank_ofRank (by decide), hrank]
    · intro hne; exact absurd hrank hne
  · rw [if_neg h0, String.toList_ofList]
    obtain ⟨d, hd, hdrank⟩ := Decimal.readUnsigned_positional (shortest (unitsOfRank x.rank)).strip
    obtain ⟨⟨c, cs, hcs, hc⟩, _⟩ :=
      Decimal.positional_chars (shortest (unitsOfRank x.rank)).strip
    rw [Decimal.rank_strip, shortest_rank, hself] at hdrank
    refine ⟨ofRank x.negative x.rank, ?_, same_of_rank ?_ h ?_⟩
    · have hsign : splitSign (if x.negative = true then
          '-' :: (shortest (unitsOfRank x.rank)).strip.positional
          else (shortest (unitsOfRank x.rank)).strip.positional) =
          (x.negative, (shortest (unitsOfRank x.rank)).strip.positional) := by
        cases x.negative with
        | true => rfl
        | false => rw [hcs]; exact splitSign_of_isDigit hc cs
      unfold readNumeral
      rw [hsign]
      dsimp only
      rw [hd, Option.map_some, Decimal.toDouble, hdrank]
    · exact rank_ofRank hbits
    · intro _; exact negative_ofRank hbits

/-- What is written of a double is an atom, also where it is no numeral. -/
theorem isAtom_text (x : Double) : Token.IsAtom x.text := by
  unfold text
  split
  · decide
  · next b _ => cases b <;> decide
  · next b units _ =>
    split
    · decide
    · obtain ⟨⟨c, cs, hcs, hc⟩, hall⟩ := Decimal.positional_chars (shortest units).strip
      have hatomic : ∀ c ∈ (shortest units).strip.positional, Token.isAtomic c = true := by
        intro c hc
        rcases hall c hc with h | rfl
        · exact Token.isAtomic_of_isDigit h
        · decide
      generalize (shortest units).strip.positional = ds at hcs hatomic
      refine ⟨?_, ?_⟩
      · intro h
        have hlist := congrArg String.toList h
        rw [String.toList_ofList, hcs] at hlist
        cases b <;> exact absurd hlist (by simp)
      · intro d hd
        rw [String.toList_ofList] at hd
        cases b with
        | false => exact hatomic d hd
        | true =>
            rcases List.mem_cons.mp hd with rfl | hd
            · decide
            · exact hatomic d hd

end Double

end RegisterMachine.Number

namespace RegisterMachine.Value

/-- **A number is read back from its text if and only if it is finite.** -/
theorem same_ofAtom_text (n : Number.Double) :
    (ofAtom n.text).same (number n) = true ↔ n.rank < Number.rankOfInfinity := by
  refine ⟨?_, ?_⟩
  · intro h
    by_contra hfin
    -- the words for the other doubles are symbols
    have hsymbol : ofAtom n.text = symbol n.text := by
      unfold Number.Double.text Number.Double.meaning
      rw [if_neg hfin]
      by_cases hinf : n.rank = Number.rankOfInfinity
      · rw [if_pos hinf]
        cases n.negative <;> rfl
      · rw [if_neg hinf]
        rfl
    rw [hsymbol] at h
    exact absurd h (by simp [same])
  · intro h
    obtain ⟨y, hy, hsame⟩ := Number.Double.readNumeral_text h
    rw [ofAtom_eq_number.mpr hy]
    exact hsame

end RegisterMachine.Value
