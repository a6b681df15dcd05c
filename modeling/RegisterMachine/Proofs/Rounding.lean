import RegisterMachine.Number.Shortest

/-!
# Rounding depends on the value alone

A decimal is rounded by way of a quotient of naturals, with two shortcuts for powers of ten that
are not worth computing. The shortcuts answer what the quotient would, and a quotient may be
extended without another outcome, so decimals of one value have one rank. That is what lets zeros be
moved between the digits of a decimal and its exponent.

A double rounds to itself: the units of a finite rank, taken as a quotient, have that rank. So has
the shortest decimal of these units, which was searched for among those that do.
-/

namespace RegisterMachine.Number

/-! ## Shifts and powers of ten -/

theorem mul_shiftLeft (c n k : Nat) : (c * n) <<< k = c * n <<< k := by
  rw [Nat.shiftLeft_eq, Nat.shiftLeft_eq, Nat.mul_assoc]

theorem shiftLeft_mono {m n : Nat} (h : m ≤ n) (k : Nat) : m <<< k ≤ n <<< k := by
  rw [Nat.shiftLeft_eq, Nat.shiftLeft_eq]
  exact Nat.mul_le_mul_right _ h

theorem shiftLeft_pos {m : Nat} (h : 0 < m) (k : Nat) : 0 < m <<< k := by
  rw [Nat.shiftLeft_eq]
  exact Nat.mul_pos h (Nat.two_pow_pos k)

theorem one_shiftLeft_mono {j k : Nat} (h : j ≤ k) : 1 <<< j ≤ 1 <<< k := by
  rw [Nat.one_shiftLeft, Nat.one_shiftLeft]
  exact Nat.pow_le_pow_right (by decide) h

theorem log2_shiftLeft {m : Nat} (hm : m ≠ 0) (k : Nat) : (m <<< k).log2 = m.log2 + k := by
  induction k with
  | zero => rfl
  | succ k ih =>
      have hne : m <<< k ≠ 0 := Nat.ne_of_gt (shiftLeft_pos (Nat.pos_of_ne_zero hm) k)
      rw [Nat.shiftLeft_succ, Nat.log2_two_mul hne, ih]
      omega

theorem pow_ten_pos (k : Nat) : 0 < Nat.pow 10 k := Nat.pow_pos (by decide)

theorem pow_ten_add (j k : Nat) : Nat.pow 10 (j + k) = Nat.pow 10 j * Nat.pow 10 k :=
  Nat.pow_add 10 j k

/-- A power of ten is at least that of eight. -/
theorem one_shiftLeft_le_pow_ten (k : Nat) : 1 <<< (3 * k) ≤ Nat.pow 10 k := by
  induction k with
  | zero => exact Nat.le_refl 1
  | succ k ih =>
      have hten : Nat.pow 10 (k + 1) = Nat.pow 10 k * 10 := rfl
      have height : 1 <<< (3 * (k + 1)) = 2 * (2 * (2 * 1 <<< (3 * k))) := by
        rw [Nat.mul_succ, Nat.shiftLeft_succ, Nat.shiftLeft_succ, Nat.shiftLeft_succ]
      rw [hten, height]
      omega

theorem lt_pow_ten_log2 (m : Nat) : m < Nat.pow 10 (m.log2 + 1) :=
  Nat.lt_of_lt_of_le Nat.lt_log2_self (Nat.pow_le_pow_left (by decide) _)

/-! ## Quotients -/

theorem roundDiv_mul_left {c : Nat} (hc : 0 < c) (num den : Nat) :
    roundDiv (c * num) (c * den) = roundDiv num den := by
  have hlt : ∀ a b : Nat, c * a < c * b ↔ a < b := fun a b => Nat.mul_lt_mul_left hc
  unfold roundDiv
  rw [Nat.mul_div_mul_left _ _ hc, Nat.mul_mod_mul_left]
  simp only [Nat.mul_left_comm 2 c, hlt]

/-- A whole quotient is rounded to itself. -/
theorem roundDiv_mul_self {den : Nat} (hden : 0 < den) (q : Nat) : roundDiv (q * den) den = q := by
  rw [roundDiv, Nat.mul_mod_left, if_pos (by omega), Nat.mul_div_cancel _ hden]

/-- Extending a quotient does not change what it is rounded to. -/
theorem rankOfRatio_mul_left {c : Nat} (hc : 0 < c) (num den : Nat) :
    rankOfRatio (c * num) (c * den) = rankOfRatio num den := by
  unfold rankOfRatio
  simp only [mul_shiftLeft, Nat.mul_div_mul_left _ _ hc, roundDiv_mul_left hc]

/-- A quotient of less than half a unit is rounded to zero. -/
theorem rankOfRatio_eq_zero {num den : Nat} (h : 2 * num <<< 1074 < den) :
    rankOfRatio num den = 0 := by
  unfold rankOfRatio
  generalize num <<< 1074 = n at h ⊢
  have hq : n / den = 0 := Nat.div_eq_of_lt (by omega)
  have hr : n % den = n := Nat.mod_eq_of_lt (by omega)
  have hround : roundDiv n den = 0 := by rw [roundDiv, hq, hr, if_pos h]
  dsimp only
  rw [hq]
  show min (0 <<< 52 + roundDiv n den) rankOfInfinity = 0
  rw [hround]
  exact Nat.zero_min _

theorem rankOfRatio_zero {den : Nat} (hden : 0 < den) : rankOfRatio 0 den = 0 := by
  refine rankOfRatio_eq_zero ?_
  rw [Nat.zero_shiftLeft]
  exact hden

/-- A quotient of at least `2 ^ 2100` units is rounded to infinity. -/
theorem rankOfRatio_eq_infinity {num den k : Nat} (hk : 2100 ≤ k)
    (h : 1 <<< k ≤ num <<< 1074 / den) : rankOfRatio num den = rankOfInfinity := by
  unfold rankOfRatio
  generalize num <<< 1074 = n at h ⊢
  have hne : n / den ≠ 0 := Nat.ne_of_gt (Nat.lt_of_lt_of_le (shiftLeft_pos Nat.one_pos k) h)
  rw [Nat.one_shiftLeft] at h
  have hlog : k ≤ (n / den).log2 := (Nat.le_log2 hne).mpr h
  have hshift : 2047 <<< 52 ≤ ((n / den).log2 - 52) <<< 52 := shiftLeft_mono (by omega) 52
  exact Nat.min_eq_right (Nat.le_trans hshift (Nat.le_add_right _ _))

/-! ## Decimals -/

namespace Decimal

/-- **The shortcuts are right**: a decimal has the rank of the quotient that it is. -/
theorem rank_eq (d : Decimal) :
    d.rank =
      rankOfRatio (d.digits * Nat.pow 10 d.exponent.toNat) (Nat.pow 10 (-d.exponent).toNat) := by
  obtain ⟨m, e⟩ := d
  unfold rank
  dsimp only
  split
  · next h0 => rw [h0, Nat.zero_mul, rankOfRatio_zero (pow_ten_pos _)]
  · next h0 =>
    split
    · next hbig =>
      -- one digit with that many zeros is beyond the doubles
      symm
      have hden : (-e).toNat = 0 := by omega
      have hwide : 2100 ≤ 3 * e.toNat + 1074 := by omega
      have hdigits := Nat.le_mul_of_pos_left (Nat.pow 10 e.toNat) (Nat.pos_of_ne_zero h0)
      refine rankOfRatio_eq_infinity hwide ?_
      rw [hden, Nat.shiftLeft_add]
      show _ ≤ _ / 1
      rw [Nat.div_one]
      exact shiftLeft_mono (Nat.le_trans (one_shiftLeft_le_pow_ten _) hdigits) 1074
    · split
      · next hsmall =>
        -- the digits do not make up for that many places
        symm
        apply rankOfRatio_eq_zero
        have hnum : e.toNat = 0 := by omega
        obtain ⟨k, hk⟩ : ∃ k, (-e).toNat = m.log2 + 1 + k :=
          ⟨(-e).toNat - (m.log2 + 1), by omega⟩
        have hwide : 1074 + 1 ≤ 3 * k := by omega
        have htwice : ∀ j, 2 * (m * 1) <<< j = m * 1 <<< (j + 1) := by
          intro j
          rw [Nat.shiftLeft_succ, Nat.mul_left_comm, mul_shiftLeft]
        rw [hnum, hk, pow_ten_add]
        calc 2 * (m * 1) <<< 1074 = m * 1 <<< (1074 + 1) := htwice _
          _ ≤ m * Nat.pow 10 k :=
            Nat.mul_le_mul_left _
              (Nat.le_trans (one_shiftLeft_mono hwide) (one_shiftLeft_le_pow_ten k))
          _ < Nat.pow 10 (m.log2 + 1) * Nat.pow 10 k :=
            Nat.mul_lt_mul_of_pos_right (lt_pow_ten_log2 m) (pow_ten_pos k)
      · rfl

/-- Zeros may stand among the digits or be counted by the exponent. -/
theorem rank_mul_pow (m k : Nat) (e : Int) : rank ⟨m * Nat.pow 10 k, e⟩ = rank ⟨m, e + k⟩ := by
  have hone : Nat.pow 10 0 = 1 := rfl
  rw [rank_eq, rank_eq]
  dsimp only
  by_cases he : 0 ≤ e
  · have h1 : (e + k).toNat = k + e.toNat := by omega
    have h2 : (-e).toNat = 0 := by omega
    have h3 : (-(e + k)).toNat = 0 := by omega
    rw [h1, h2, h3, pow_ten_add, Nat.mul_assoc]
  · have h1 : e.toNat = 0 := by omega
    by_cases hek : 0 ≤ e + k
    · -- some of the zeros meet the places and the others stay
      have h2 : k = (-e).toNat + (e + k).toNat := by omega
      have h3 : (-(e + k)).toNat = 0 := by omega
      have hpow : m * Nat.pow 10 k =
          Nat.pow 10 (-e).toNat * (m * Nat.pow 10 (e + k).toNat) := by
        rw [Nat.mul_left_comm, ← pow_ten_add, ← h2]
      have hscale := rankOfRatio_mul_left (pow_ten_pos (-e).toNat)
        (m * Nat.pow 10 (e + k).toNat) 1
      rw [h1, h3, hone, Nat.mul_one, hpow, ← hscale, Nat.mul_one]
    · have h2 : (e + k).toNat = 0 := by omega
      have h3 : (-e).toNat = k + (-(e + k)).toNat := by omega
      have hscale := rankOfRatio_mul_left (pow_ten_pos k) m (Nat.pow 10 (-(e + k)).toNat)
      rw [h1, h2, h3, hone, Nat.mul_one, Nat.mul_one, pow_ten_add, Nat.mul_comm m, hscale]

theorem rank_strip (d : Decimal) : d.strip.rank = d.rank := by
  induction d using strip.induct with
  | case1 d h ih =>
      rw [strip, dif_pos h, ih]
      have hten : Nat.pow 10 1 = 10 := rfl
      have hdigits : d.digits = d.digits / 10 * Nat.pow 10 1 := by
        rw [hten]
        omega
      have hmove := rank_mul_pow (d.digits / 10) 1 d.exponent
      rw [← hdigits] at hmove
      exact hmove.symm
  | case2 d h => rw [strip, dif_neg h]

/-- A number of units in decimals, with as many places as the unit has. -/
theorem rank_exact (units k : Nat) :
    rank ⟨units * Nat.pow 5 k, -k⟩ = rankOfRatio units (1 <<< k) := by
  have hten : Nat.pow 10 k = Nat.pow 5 k * 1 <<< k := by
    rw [Nat.one_shiftLeft]
    exact Nat.mul_pow 5 2 k
  have hone : Nat.pow 10 0 = 1 := rfl
  have hwhole : (-(k : Int)).toNat = 0 := by omega
  have hplaces : (-(-(k : Int))).toNat = k := by omega
  rw [rank_eq]
  dsimp only
  rw [hwhole, hplaces, hone, Nat.mul_one, hten, Nat.mul_comm units]
  exact rankOfRatio_mul_left (Nat.pow_pos (by decide)) _ _

end Decimal

/-! ## Doubles -/

/-- **A double rounds to itself.** -/
theorem rankOfRatio_unitsOfRank {r : Nat} (h : r < rankOfInfinity) :
    rankOfRatio (unitsOfRank r) (1 <<< 1074) = r := by
  have hunit := shiftLeft_pos Nat.one_pos 1074
  have hscale : ∀ n k : Nat, n <<< k = n * 1 <<< k := by
    intro n k
    rw [← mul_shiftLeft, Nat.mul_one]
  have hquot : unitsOfRank r <<< 1074 / 1 <<< 1074 = unitsOfRank r := by
    rw [hscale, Nat.mul_div_cancel _ hunit]
  have hround : ∀ u k : Nat, roundDiv (u <<< 1074) (1 <<< 1074 <<< k) = roundDiv u (1 <<< k) := by
    intro u k
    rw [hscale u, hscale (1 <<< 1074), Nat.mul_comm u, roundDiv_mul_left hunit]
  have hfrac : r % 1 <<< 52 < 1 <<< 52 := Nat.mod_lt _ (shiftLeft_pos Nat.one_pos 52)
  have hsplit : r >>> 52 <<< 52 + r % 1 <<< 52 = r := by
    rw [Nat.shiftLeft_eq, Nat.shiftRight_eq_div_pow, Nat.one_shiftLeft]
    exact Nat.div_add_mod' r _
  unfold rankOfRatio
  dsimp only
  rw [hround, hquot]
  unfold unitsOfRank
  dsimp only
  generalize r >>> 52 = e at hsplit ⊢
  generalize r % 1 <<< 52 = f at hsplit hfrac ⊢
  split
  · next he =>
    -- below the least normal double every unit is a double
    have hlog : f.log2 - 52 = 0 := by
      by_cases h0 : f = 0
      · rw [h0]; rfl
      · rw [Nat.one_shiftLeft] at hfrac
        have hlt := (Nat.log2_lt h0).mpr hfrac
        omega
    have hself := roundDiv_mul_self Nat.one_pos f
    rw [Nat.mul_one] at hself
    rw [hlog, Nat.shiftLeft_zero, hself]
    rw [he] at hsplit
    rw [hsplit]
    exact Nat.min_eq_left (Nat.le_of_lt h)
  · next he =>
    obtain ⟨s, rfl⟩ : ∃ s, e = s + 1 := ⟨e - 1, by omega⟩
    have hlead : (1 <<< 52 + f).log2 = 52 := by
      have hpos := shiftLeft_pos Nat.one_pos 52
      rw [Nat.log2_eq_iff (by omega)]
      rw [Nat.one_shiftLeft] at hfrac ⊢
      omega
    have hne : 1 <<< 52 + f ≠ 0 := by
      have hpos := shiftLeft_pos Nat.one_pos 52
      omega
    have hshift : ((1 <<< 52 + f) <<< s).log2 - 52 = s := by
      rw [log2_shiftLeft hne, hlead]
      omega
    have hcarry : s <<< 52 + (1 <<< 52 + f) = r := by
      rw [← Nat.add_assoc, Nat.shiftLeft_eq s, Nat.one_shiftLeft, ← Nat.succ_mul,
        ← Nat.shiftLeft_eq]
      exact hsplit
    rw [Nat.add_sub_cancel, hshift, hscale (1 <<< 52 + f),
      roundDiv_mul_self (shiftLeft_pos Nat.one_pos s), hcarry]
    exact Nat.min_eq_left (Nat.le_of_lt h)

namespace Double

theorem rank_ofRank {b : Bool} {r : Nat} (h : r < 1 <<< 63) : (ofRank b r).rank = r := by
  unfold ofRank rank
  rw [UInt64.toNat_ofNat']
  cases b <;> simp <;> omega

theorem negative_ofRank {b : Bool} {r : Nat} (h : r < 1 <<< 63) : (ofRank b r).negative = b := by
  unfold ofRank negative
  rw [UInt64.toNat_ofNat']
  cases b <;> simp <;> omega

/-- A double is its sign and its rank. -/
theorem ofRank_negative_rank (x : Double) : ofRank x.negative x.rank = x := by
  obtain ⟨bits⟩ := x
  have hbits := bits.toNat_lt
  refine congrArg Double.mk (UInt64.toNat_inj.mp ?_)
  rw [UInt64.toNat_ofNat']
  simp only [negative, rank, Nat.shiftLeft_eq, Nat.one_mul, decide_eq_true_eq]
  split
  · omega
  · omega

/-- The sign changed twice is the sign that it was, also for a zero and for what is no number. -/
protected theorem neg_neg (x : Double) : -(-x) = x := by
  have hrank : x.rank < 1 <<< 63 := Nat.mod_lt _ (by decide)
  show ofRank (!(ofRank (!x.negative) x.rank).negative) (ofRank (!x.negative) x.rank).rank = x
  rw [negative_ofRank hrank, rank_ofRank hrank, Bool.not_not]
  exact ofRank_negative_rank x

end Double

/-! ## Shortest decimals -/

theorem nearestOnGrid_rank {units : Nat} {e : Int} {d : Decimal}
    (h : nearestOnGrid units e = some d) : d.rank = rankOfRatio units (1 <<< 1074) := by
  unfold nearestOnGrid at h
  dsimp only at h
  split at h
  · next hl hu =>
    rw [← Option.some.inj h]
    split
    · exact of_decide_eq_true hl
    · exact of_decide_eq_true hu
  · next hl hu => rw [← Option.some.inj h]; exact of_decide_eq_true hl
  · next hl hu => rw [← Option.some.inj h]; exact of_decide_eq_true hu
  · exact absurd h (by simp)

/-- **The shortest decimal reads back**, whether it was found on a grid or stands behind them. -/
theorem shortest_rank (units : Nat) : (shortest units).rank = rankOfRatio units (1 <<< 1074) := by
  unfold shortest
  cases hfound : (List.range' 1 17).findSome? fun (n : Nat) =>
      nearestOnGrid units (decimalScale units - n) with
  | some d =>
      obtain ⟨n, _, hn⟩ := List.exists_of_findSome?_eq_some hfound
      exact nearestOnGrid_rank hn
  | none =>
      have hcast : (-1074 : Int) = -((1074 : Nat) : Int) := rfl
      rw [Option.getD_none, hcast]
      generalize 1074 = k
      exact Decimal.rank_exact units k

end RegisterMachine.Number
