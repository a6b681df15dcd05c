import RegisterMachine.Proofs.Rounding
import RegisterMachine.Proofs.Words

/-!
# Which atoms are numbers

An atom is taken for a number if it begins like one and a double can be read from it. Neither test is
the grammar of numerals: the first passes over any signs and any points, and doubles are read from
words too. Together they are: a numeral passes the first test, whatever sign and point it begins with
(`looksNumeric_of_numeral`), and no word does (`readWord_of_looksNumeric`).

The grammar is stated without either (`Numeral`), in the parts that a numeral has from left to right,
and the reader of numerals accepts just what it describes (`isSome_readNumeral`).
-/

namespace RegisterMachine.Number

open Token (takeWhile_append_of_stops dropWhile_append_of_stops)

/-! ## The grammar -/

/-- An optional sign, one at most. -/
inductive Sign : List Char → Prop where
  | none : Sign []
  | minus : Sign ['-']
  | plus : Sign ['+']

def Digits (ds : List Char) : Prop := ∀ d ∈ ds, d.isDigit = true

/-- Digits, with a point at the end or among them, or a point with digits behind it. -/
inductive Mantissa : List Char → Prop where
  | whole {ds : List Char} (h : Digits ds) (hne : ds ≠ []) : Mantissa ds
  | point {ds fs : List Char} (h : Digits ds) (hne : ds ≠ []) (hf : Digits fs) :
      Mantissa (ds ++ '.' :: fs)
  | fraction {fs : List Char} (hf : Digits fs) (hne : fs ≠ []) : Mantissa ('.' :: fs)

/-- Nothing, or a letter, an optional sign and digits. -/
inductive Exponent : List Char → Prop where
  | none : Exponent []
  | some {e : Char} {sign ds : List Char} (he : e = 'e' ∨ e = 'E') (hs : Sign sign)
      (h : Digits ds) (hne : ds ≠ []) : Exponent (e :: (sign ++ ds))

/-- A decimal numeral. -/
def Numeral (cs : List Char) : Prop :=
  ∃ sign mantissa exponent, Sign sign ∧ Mantissa mantissa ∧ Exponent exponent
    ∧ cs = sign ++ (mantissa ++ exponent)

/-- What is no numeral but close to one, or a double elsewhere. -/
inductive NearMiss : List Char → Prop where
  /-- A word for an infinite double or for the one that is no number, in any mix of cases. -/
  | word {sign w : List Char} (hs : Sign sign)
      (hw : String.ofList (w.map Char.toLower) ∈ ["inf", "infinity", "nan"]) : NearMiss (sign ++ w)
  | signs {a b : Char} {cs : List Char} (ha : Sign [a]) (hb : Sign [b]) : NearMiss (a :: b :: cs)
  | points {sign cs : List Char} (hs : Sign sign) : NearMiss (sign ++ '.' :: '.' :: cs)
  /-- A letter that announces an exponent, and none. -/
  | exponent {sign mantissa sign' : List Char} {e : Char} (hs : Sign sign) (hm : Mantissa mantissa)
      (he : e = 'e' ∨ e = 'E') (hs' : Sign sign') : NearMiss (sign ++ (mantissa ++ e :: sign'))

variable {cs ds fs tail sign : List Char} {c : Char}

/-! ## How the parts begin -/

theorem digits_nil : Digits [] := nofun

/-- A text that does not go on with a digit. -/
def NoDigit (cs : List Char) : Prop := ∀ c ∈ cs.head?, c.isDigit = false

theorem NoDigit.cons (h : c.isDigit = false) (cs : List Char) : NoDigit (c :: cs) := by
  intro d hd
  rw [List.head?_cons, Option.mem_some_iff] at hd
  exact hd ▸ h

/-- A sign is what is split off, and nothing else. -/
theorem splitSign_append (hs : Sign sign) (hcs : ∀ c ∈ cs.head?, ¬ Sign [c]) :
    (splitSign (sign ++ cs)).2 = cs := by
  cases hs with
  | minus | plus => rfl
  | none =>
      rw [List.nil_append]
      unfold splitSign
      split
      · exact absurd .minus (hcs '-' rfl)
      · exact absurd .plus (hcs '+' rfl)
      · rfl

theorem exists_sign (cs : List Char) : ∃ sign, Sign sign ∧ cs = sign ++ (splitSign cs).2 := by
  unfold splitSign
  split
  · exact ⟨_, .minus, rfl⟩
  · exact ⟨_, .plus, rfl⟩
  · exact ⟨_, .none, rfl⟩

theorem not_sign_of_isDigit (h : c.isDigit = true) : ¬ Sign [c] := by
  intro hs
  cases hs with
  | minus | plus => exact absurd h (by decide)

/-- A mantissa begins with a digit, or with a point and a digit. -/
theorem Mantissa.head (h : Mantissa cs) :
    ∃ d rest, d.isDigit = true ∧ (cs = d :: rest ∨ cs = '.' :: d :: rest) := by
  have hcons : ∀ {ds : List Char}, Digits ds → ds ≠ [] →
      ∃ d rest, d.isDigit = true ∧ ds = d :: rest := by
    intro ds h hne
    obtain ⟨d, rest, rfl⟩ := List.exists_cons_of_ne_nil hne
    exact ⟨d, rest, h d List.mem_cons_self, rfl⟩
  cases h with
  | whole h hne =>
      obtain ⟨d, rest, hd, rfl⟩ := hcons h hne
      exact ⟨d, rest, hd, Or.inl rfl⟩
  | point h hne hf =>
      obtain ⟨d, rest, hd, rfl⟩ := hcons h hne
      exact ⟨d, _, hd, Or.inl rfl⟩
  | fraction hf hne =>
      obtain ⟨d, rest, hd, rfl⟩ := hcons hf hne
      exact ⟨d, rest, hd, Or.inr rfl⟩

theorem Mantissa.not_sign (h : Mantissa cs) (tail : List Char) :
    ∀ c ∈ (cs ++ tail).head?, ¬ Sign [c] := by
  intro c hc
  obtain ⟨d, rest, hd, rfl | rfl⟩ := h.head
  · obtain rfl := Option.some.inj hc
    exact not_sign_of_isDigit hd
  · obtain rfl := Option.some.inj hc
    exact nofun

/-- What may follow a mantissa: nothing, or the letter of an exponent. -/
def Announces (cs : List Char) : Prop := ∀ c ∈ cs.head?, c = 'e' ∨ c = 'E'

theorem announces_nil : Announces [] := nofun

theorem Announces.noDigit (h : Announces cs) : NoDigit cs := by
  intro c hc
  rcases h c hc with rfl | rfl
  · decide
  · decide

theorem Exponent.announces (h : Exponent cs) : Announces cs := by
  intro c hc
  cases h with
  | none => exact absurd hc (by simp)
  | some he =>
      obtain rfl := Option.some.inj hc
      exact he

/-! ## What is read -/

theorem readExponent_cons (c : Char) (cs : List Char) :
    readExponent (c :: cs) =
      if c = 'e' ∨ c = 'E' then
        if (splitSign cs).2 ≠ [] ∧ (splitSign cs).2.all Char.isDigit then
          some (if (splitSign cs).1 then -(digitsValue (splitSign cs).2 : Int)
            else digitsValue (splitSign cs).2)
        else none
      else none := rfl

/-- **An exponent is read** exactly if there is one. -/
theorem isSome_readExponent : (readExponent cs).isSome ↔ Exponent cs := by
  constructor
  · intro h
    cases cs with
    | nil => exact .none
    | cons c cs =>
        obtain ⟨sign, hsign, hcs⟩ := exists_sign cs
        rw [readExponent_cons] at h
        split at h
        · next he =>
          split at h
          · next hds =>
            rw [hcs]
            exact .some he hsign (List.all_eq_true.mp hds.2) hds.1
          · exact absurd h (by simp)
        · exact absurd h (by simp)
  · intro h
    cases h with
    | none => rfl
    | @some e sign ds he hs hd hne =>
        have hsplit : (splitSign (sign ++ ds)).2 = ds := by
          refine splitSign_append hs ?_
          intro c hc
          exact not_sign_of_isDigit (hd c (List.mem_of_mem_head? hc))
        rw [readExponent_cons, if_pos he, hsplit, if_pos ⟨hne, List.all_eq_true.mpr hd⟩]
        rfl

/-- The value of digits without a point, with the exponent behind them. -/
theorem readUnsigned_whole (h : Digits ds) (hne : ds ≠ []) (ht : Announces tail) :
    readUnsigned (ds ++ tail) = (readExponent tail).map fun e => ⟨digitsValue ds, e⟩ := by
  unfold readUnsigned
  rw [takeWhile_append_of_stops h ht.noDigit, dropWhile_append_of_stops h ht.noDigit]
  split
  next fraction rest hpair =>
    split at hpair
    · next r => exact absurd (ht '.' rfl) (by decide)
    · obtain ⟨rfl, rfl⟩ := Prod.mk.inj hpair
      simp [hne]

/-- The value of digits around a point, with the exponent behind them. -/
theorem readUnsigned_around (h : Digits ds) (hf : Digits fs) (hne : ds ++ fs ≠ [])
    (ht : NoDigit tail) :
    readUnsigned (ds ++ '.' :: (fs ++ tail)) =
      (readExponent tail).map fun e => ⟨digitsValue (ds ++ fs), e - fs.length⟩ := by
  have hpoint : NoDigit ('.' :: (fs ++ tail)) := .cons (by decide) _
  have htake := takeWhile_append_of_stops hf ht
  have hdrop := dropWhile_append_of_stops hf ht
  unfold readUnsigned
  rw [takeWhile_append_of_stops h hpoint, dropWhile_append_of_stops h hpoint]
  simp only [htake, hdrop, hne, if_false]

/-- Nothing is read where no mantissa begins. -/
theorem readUnsigned_eq_none (h : NoDigit cs)
    (hp : ∀ rest, cs = '.' :: rest → NoDigit rest) : readUnsigned cs = none := by
  have htake : ∀ {cs : List Char}, NoDigit cs → cs.takeWhile Char.isDigit = [] :=
    fun h => takeWhile_append_of_stops digits_nil h
  have hdrop : cs.dropWhile Char.isDigit = cs := dropWhile_append_of_stops digits_nil h
  unfold readUnsigned
  rw [htake h, hdrop]
  split
  next fraction rest hpair =>
    split at hpair
    · next r =>
      obtain ⟨rfl, _⟩ := Prod.mk.inj hpair
      simp [htake (hp r rfl)]
    · obtain ⟨rfl, _⟩ := Prod.mk.inj hpair
      rfl

/-- A mantissa leaves it to the exponent whether anything is read. -/
theorem Mantissa.isSome_readUnsigned {mantissa : List Char} (h : Mantissa mantissa)
    (ht : Announces tail) : (readUnsigned (mantissa ++ tail)).isSome = (readExponent tail).isSome := by
  cases h with
  | whole h hne => rw [readUnsigned_whole h hne ht, Option.isSome_map]
  | @point ds fs h hne hf =>
      rw [List.append_assoc, List.cons_append,
        readUnsigned_around h hf (List.append_ne_nil_of_left_ne_nil hne fs) ht.noDigit,
        Option.isSome_map]
  | @fraction fs hf hne =>
      have hread := readUnsigned_around digits_nil hf hne ht.noDigit
      rw [List.nil_append] at hread
      rw [List.cons_append, hread, Option.isSome_map]

/-- What is read begins with a mantissa. -/
theorem exists_mantissa (h : (readUnsigned cs).isSome) :
    ∃ mantissa tail, Mantissa mantissa ∧ (readExponent tail).isSome ∧ cs = mantissa ++ tail := by
  have hdigits : ∀ cs : List Char, Digits (cs.takeWhile Char.isDigit) :=
    fun cs => List.all_eq_true.mp List.all_takeWhile
  have hcs := (List.takeWhile_append_dropWhile (p := Char.isDigit) (l := cs)).symm
  unfold readUnsigned at h
  split at h
  next fraction tail hpair =>
    dsimp only at h
    split at h
    · exact absurd h (by simp)
    · next hne =>
      rw [Option.isSome_map] at h
      split at hpair
      · next rest hrest =>
        obtain ⟨rfl, rfl⟩ := Prod.mk.inj hpair
        have hsplit := (List.takeWhile_append_dropWhile (p := Char.isDigit) (l := rest)).symm
        rw [hrest] at hcs
        by_cases hwhole : cs.takeWhile Char.isDigit = []
        · rw [hwhole, List.nil_append] at hne
          rw [hwhole] at hcs
          exact ⟨_, _, .fraction (hdigits rest) hne, h, hcs.trans (congrArg ('.' :: ·) hsplit)⟩
        · refine ⟨_, _, .point (hdigits cs) hwhole (hdigits rest), h, ?_⟩
          rw [List.append_assoc, List.cons_append, ← hsplit]
          exact hcs
      · obtain ⟨rfl, rfl⟩ := Prod.mk.inj hpair
        rw [List.append_nil] at hne
        exact ⟨_, _, .whole (hdigits cs) hne, h, hcs⟩

theorem readNumeral_eq (cs : List Char) :
    readNumeral cs =
      (readUnsigned (splitSign cs).2).map (Decimal.toDouble (splitSign cs).1) := rfl

/-- **The reader of numerals accepts the numerals.** -/
theorem isSome_readNumeral : (readNumeral cs).isSome ↔ Numeral cs := by
  rw [readNumeral_eq, Option.isSome_map]
  constructor
  · intro h
    obtain ⟨sign, hsign, hcs⟩ := exists_sign cs
    obtain ⟨mantissa, tail, hm, htail, hrest⟩ := exists_mantissa h
    rw [hrest] at hcs
    exact ⟨sign, mantissa, tail, hsign, hm, isSome_readExponent.mp htail, hcs⟩
  · intro h
    obtain ⟨sign, mantissa, exponent, hsign, hm, he, rfl⟩ := h
    rw [splitSign_append hsign (hm.not_sign _), hm.isSome_readUnsigned he.announces]
    exact isSome_readExponent.mpr he

/-! ## What is not read -/

/-- A letter begins no numeral. -/
theorem not_numeral_of_isAlpha {c : Char} (h : c.isAlpha = true) :
    c.isDigit = false ∧ c ≠ '.' ∧ ¬ Sign [c] := by
  have hne : ∀ d : Char, d.isAlpha = false → c ≠ d := by
    intro d hd he
    rw [he, hd] at h
    exact absurd h (by simp)
  refine ⟨?_, hne '.' rfl, ?_⟩
  · rw [← Bool.not_eq_true]
    intro hd
    rw [Char.isDigit_iff_toNat] at hd
    have hnine : '9'.toNat < 'A'.toNat := by decide
    have hletter : 'A'.toNat ≤ c.toNat := by
      rcases (Bool.or_eq_true _ _).mp h with hupper | hlower
      · exact UInt32.le_iff_toNat_le.mp (of_decide_eq_true hupper).1
      · have hle := of_decide_eq_true ((Bool.and_eq_true _ _).mp hlower).1
        exact Nat.le_trans (by decide) (UInt32.le_iff_toNat_le.mp hle)
    omega
  · intro hs
    cases hs with
    | minus => exact hne '-' rfl rfl
    | plus => exact hne '+' rfl rfl

theorem isAlpha_of_toLower (h : c.toLower.isAlpha = true) : c.isAlpha = true := by
  unfold Char.toLower at h
  split at h
  · next hupper => exact (Bool.or_eq_true _ _).mpr (Or.inl (decide_eq_true hupper))
  · exact h

/-- The words begin with letters. -/
theorem head_of_word {w : List Char}
    (h : String.ofList (w.map Char.toLower) ∈ ["inf", "infinity", "nan"]) :
    ∃ c rest, w = c :: rest ∧ c.isAlpha = true := by
  cases w with
  | nil => exact absurd h (by decide)
  | cons c rest =>
      refine ⟨c, rest, rfl, isAlpha_of_toLower ?_⟩
      simp only [List.mem_cons, List.not_mem_nil, or_false] at h
      rcases h with h | h | h
      all_goals
        have hlist := congrArg String.toList h
        rw [String.toList_ofList, List.map_cons] at hlist
        rw [(List.cons.inj hlist).1]
        decide

/-- Of what is close to a numeral only the words begin with a letter. -/
theorem NearMiss.word_of_isAlpha (h : NearMiss (c :: cs)) (hc : c.isAlpha = true) :
    String.ofList ((c :: cs).map Char.toLower) ∈ ["inf", "infinity", "nan"] := by
  obtain ⟨hdigit, hpoint, hsign⟩ := not_numeral_of_isAlpha hc
  have hnil : ∀ {sign rest : List Char}, Sign sign → c :: cs = sign ++ rest → c :: cs = rest := by
    intro sign rest hs he
    cases hs with
    | none => exact he
    | minus => exact absurd ((List.cons.inj he).1 ▸ .minus) hsign
    | plus => exact absurd ((List.cons.inj he).1 ▸ .plus) hsign
  generalize htext : c :: cs = text at h
  cases h with
  | word hs hw => rw [← htext, hnil hs htext]; exact hw
  | signs ha _ => exact absurd ((List.cons.inj htext).1 ▸ ha) hsign
  | points hs => exact absurd (List.cons.inj (hnil hs htext)).1 hpoint
  | exponent hs hm =>
      have he := hnil hs htext
      obtain ⟨d, rest, hd, rfl | rfl⟩ := hm.head
      · rw [← (List.cons.inj he).1, hdigit] at hd
        exact absurd hd (by simp)
      · exact absurd (List.cons.inj he).1 hpoint

theorem NearMiss.readNumeral_eq_none (h : NearMiss cs) : readNumeral cs = none := by
  rw [readNumeral_eq, Option.map_eq_none_iff]
  cases h with
  | word hs hw =>
      obtain ⟨c, rest, rfl, hc⟩ := head_of_word hw
      obtain ⟨hdigit, hpoint, hsign⟩ := not_numeral_of_isAlpha hc
      rw [splitSign_append hs (by simpa using hsign)]
      exact readUnsigned_eq_none (.cons hdigit rest) fun _ he => absurd (List.cons.inj he).1 hpoint
  | @signs a b cs ha hb =>
      have hsplit : (splitSign (a :: b :: cs)).2 = b :: cs := by
        cases ha with
        | minus | plus => rfl
      rw [hsplit]
      cases hb with
      | minus | plus => exact readUnsigned_eq_none (.cons (by decide) cs) nofun
  | @points sign cs hs =>
      have hpoint : ∀ c ∈ ('.' :: '.' :: cs).head?, ¬ Sign [c] := by
        intro c hc
        obtain rfl := Option.some.inj hc
        exact nofun
      rw [splitSign_append hs hpoint]
      refine readUnsigned_eq_none (.cons (by decide) _) ?_
      intro rest he
      rw [← (List.cons.inj he).2]
      exact .cons (by decide) cs
  | @exponent sign mantissa sign' e hs hm he hs' =>
      have ht : Announces (e :: sign') := fun c hc => Option.some.inj hc ▸ he
      rw [splitSign_append hs (hm.not_sign _), ← Option.not_isSome_iff_eq_none,
        hm.isSome_readUnsigned ht]
      cases hs' with
      | none | minus | plus => rcases he with rfl | rfl <;> decide

/-- **A numeral denotes a number.** -/
theorem isNaN_of_readNumeral {n : Double} (h : readNumeral cs = some n) : n.isNaN = false := by
  obtain ⟨d, _, rfl⟩ := Option.map_eq_some_iff.mp h
  have hle : d.rank ≤ rankOfInfinity := by
    rw [Decimal.rank_eq]
    exact Nat.min_le_right _ _
  have hbits : rankOfInfinity < 1 <<< 63 := by decide
  unfold Decimal.toDouble Double.isNaN
  rw [Double.rank_ofRank (Nat.lt_of_le_of_lt hle hbits)]
  exact decide_eq_false (Nat.not_lt.mpr hle)

end RegisterMachine.Number

namespace RegisterMachine.Value

open Number (Numeral NearMiss Sign Mantissa readNumeral readWord)

variable {s : String}

/-! ## The two tests -/

/-- What the first test sees of a text with a sign in front. -/
theorem looksNumeric_of_toList {sign rest : List Char} (hs : Sign sign)
    (hrest : ∀ c ∈ rest.head?, ¬ Sign [c]) (h : s.toList = sign ++ rest) :
    looksNumeric s = (rest.dropWhile (· = '.')).head?.any Char.isDigit := by
  have hsigns : s.toList.dropWhile (fun c => c = '-' || c = '+') = rest := by
    rw [h]
    have hall : ∀ c ∈ sign, (decide (c = '-') || decide (c = '+')) = true := by
      cases hs with
      | none => exact nofun
      | minus | plus => simp
    rw [List.dropWhile_append_of_pos hall]
    cases rest with
    | nil => rfl
    | cons c rest =>
        have hc := hrest c rfl
        refine List.dropWhile_cons_of_neg ?_
        simp only [Bool.or_eq_true, decide_eq_true_eq, not_or]
        exact ⟨fun he => hc (he ▸ .minus), fun he => hc (he ▸ .plus)⟩
  unfold looksNumeric
  rw [hsigns]

/-- **A numeral begins like a number.** -/
theorem looksNumeric_of_numeral (h : Numeral s.toList) : looksNumeric s = true := by
  obtain ⟨sign, mantissa, exponent, hs, hm, _, htext⟩ := h
  rw [looksNumeric_of_toList hs (hm.not_sign _) htext]
  obtain ⟨d, rest, hd, hhead⟩ := hm.head
  have hpoint : d ≠ '.' := by
    intro he
    rw [he] at hd
    exact absurd hd (by decide)
  rcases hhead with rfl | rfl
  · rw [List.cons_append, List.dropWhile_cons_of_neg (by simpa using hpoint)]
    exact hd
  · rw [List.cons_append, List.cons_append, List.dropWhile_cons_of_pos (by simp),
      List.dropWhile_cons_of_neg (by simpa using hpoint)]
    exact hd

/-- **No word begins like a number.** -/
theorem readWord_of_looksNumeric (h : looksNumeric s = true) : readWord s.toList = none := by
  obtain ⟨sign, hs, htext⟩ := Number.exists_sign s.toList
  by_cases hw : String.ofList ((Number.splitSign s.toList).2.map Char.toLower)
      ∈ ["inf", "infinity", "nan"]
  · obtain ⟨c, rest, hrest, hc⟩ := Number.head_of_word hw
    obtain ⟨hdigit, hpoint, hsign⟩ := Number.not_numeral_of_isAlpha hc
    rw [hrest] at htext
    rw [looksNumeric_of_toList hs (by simpa using hsign) htext,
      List.dropWhile_cons_of_neg (by simpa using hpoint)] at h
    exact absurd (hdigit.symm.trans h) (by simp)
  · simp only [List.mem_cons, List.not_mem_nil, or_false, not_or] at hw
    unfold readWord
    dsimp only
    rw [if_neg (not_or.mpr ⟨hw.1, hw.2.1⟩), if_neg hw.2.2]

/-- **The tests together are the grammar**: what an atom is depends on the reader of numerals. -/
theorem ofAtom_eq (s : String) :
    ofAtom s =
      if s = "true" then bool true
      else if s = "false" then bool false
      else match readNumeral s.toList with
        | some n => number n
        | none => symbol s := by
  unfold ofAtom Number.readDouble
  cases hn : readNumeral s.toList with
  | some n =>
      have hlooks := looksNumeric_of_numeral (Number.isSome_readNumeral.mp (by rw [hn]; rfl))
      rw [if_pos hlooks, Option.some_or]
  | none =>
      cases hlooks : looksNumeric s with
      | true => rw [readWord_of_looksNumeric hlooks]; rfl
      | false => rfl

/-! ## What an atom is -/

/-- The atom is a numeral and no word. -/
theorem ofAtom_eq_number {n : Number.Double} :
    ofAtom s = number n ↔ readNumeral s.toList = some n := by
  have hword : ∀ w, readNumeral w.toList = none → readNumeral s.toList = some n → s ≠ w := by
    intro w hw h he
    rw [he, hw] at h
    exact absurd h (by simp)
  rw [ofAtom_eq]
  constructor
  · intro h
    split at h
    · exact absurd h (by simp)
    · split at h
      · exact absurd h (by simp)
      · split at h
        · next m hm => rw [hm, number.inj h]
        · exact absurd h (by simp)
  · intro h
    rw [if_neg (hword "true" rfl h), if_neg (hword "false" rfl h), h]

theorem ofAtom_eq_bool {b : Bool} : ofAtom s = bool b ↔ s = if b then "true" else "false" := by
  rw [ofAtom_eq]
  constructor
  · intro h
    split at h
    · next hs => rw [hs, ← bool.inj h]; rfl
    · split at h
      · next hs => rw [hs, ← bool.inj h]; rfl
      · split at h <;> exact absurd h (by simp)
  · intro hs
    subst hs
    cases b <;> rfl

theorem ofAtom_eq_symbol {t : String} :
    ofAtom s = symbol t ↔
      t = s ∧ s ≠ "true" ∧ s ≠ "false" ∧ readNumeral s.toList = none := by
  rw [ofAtom_eq]
  constructor
  · intro h
    split at h
    · exact absurd h (by simp)
    · next htrue =>
      split at h
      · exact absurd h (by simp)
      · next hfalse =>
        split at h
        · exact absurd h (by simp)
        · next hn => exact ⟨(symbol.inj h).symm, htrue, hfalse, hn⟩
  · intro h
    obtain ⟨rfl, htrue, hfalse, hn⟩ := h
    rw [if_neg htrue, if_neg hfalse, hn]

/--
**Atoms are classified by the grammar of numerals.**

An atom is a truth value if it is the word for one, and a number, never the double that is no number,
if it is a numeral. Any other atom is the symbol of its own text, also where it comes close to a
numeral or where a double could be read from it.
-/
theorem ofAtom_classifies (s : String) :
    (∀ b, ofAtom s = bool b ↔ s = if b then "true" else "false")
      ∧ ((∃ n, ofAtom s = number n) ↔ Numeral s.toList)
      ∧ (∀ n, ofAtom s = number n → n.isNaN = false)
      ∧ (∀ t, ofAtom s = symbol t ↔
          t = s ∧ s ≠ "true" ∧ s ≠ "false" ∧ ¬ Numeral s.toList)
      ∧ (NearMiss s.toList → ofAtom s = symbol s) := by
  have hnumeral : (∃ n, readNumeral s.toList = some n) ↔ Numeral s.toList := by
    rw [← Option.isSome_iff_exists, Number.isSome_readNumeral]
  have hnone : readNumeral s.toList = none ↔ ¬ Numeral s.toList := by
    rw [← Number.isSome_readNumeral, Option.not_isSome_iff_eq_none]
  refine ⟨fun b => ofAtom_eq_bool, ?_, ?_, ?_, ?_⟩
  · simp only [ofAtom_eq_number]
    exact hnumeral
  · intro n h
    exact Number.isNaN_of_readNumeral (ofAtom_eq_number.mp h)
  · intro t
    rw [ofAtom_eq_symbol, hnone]
  · intro h
    have htrue : s ≠ "true" := by
      intro hs
      subst hs
      exact absurd (h.word_of_isAlpha (by decide)) (by decide)
    have hfalse : s ≠ "false" := by
      intro hs
      subst hs
      exact absurd (h.word_of_isAlpha (by decide)) (by decide)
    exact ofAtom_eq_symbol.mpr ⟨rfl, htrue, hfalse, h.readNumeral_eq_none⟩

theorem ofAtom_classifies_signs :
    Numeral "-.5E+3".toList ∧ (∃ n, ofAtom "-.5E+3" = number n)
      ∧ NearMiss "+-5".toList ∧ ofAtom "+-5" = symbol "+-5" := by
  have hnumeral : Numeral "-.5E+3".toList := Number.isSome_readNumeral.mp rfl
  have hsigns : NearMiss "+-5".toList := .signs .plus .minus
  exact ⟨hnumeral, (ofAtom_classifies "-.5E+3").2.1.mpr hnumeral, hsigns,
    (ofAtom_classifies "+-5").2.2.2.2 hsigns⟩

end RegisterMachine.Value
