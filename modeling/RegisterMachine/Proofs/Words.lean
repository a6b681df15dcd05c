import RegisterMachine.Reading.Description

/-!
# The words of a text

What a reading can tell from a token is its kind and its text; where the token stands matters to
messages only. A *word* is a token without its place, and the words of a text are a function of its
characters alone, so a printed text can be taken apart from the front: a gap is no word, a
parenthesis is one, and so is a run of atom characters or a stretch from one quote to the next.

An atom ends where a character follows that is none of its own. Every lemma about printed text
therefore carries a condition on what comes after, `Stops`.
-/

namespace RegisterMachine

/-- A token without its place. -/
structure Word where
  kind : Token.Kind
  text : String
deriving DecidableEq

namespace Token

def word (t : Token) : Word := ⟨t.kind, t.text⟩

/-- The word a piece of text is, unless it is a gap. -/
def Piece.word? (p : Piece) : Option Word := p.kind.map (⟨·, String.ofList p.chars⟩)

def words (cs : List Char) : List Word := (pieces cs).filterMap Piece.word?

theorem map_word_place (start : Nat) (ps : List Piece) :
    (place start ps).map word = ps.filterMap Piece.word? := by
  induction ps generalizing start with
  | nil => rfl
  | cons p ps ih =>
      obtain ⟨kind, chars⟩ := p
      cases kind with
      | none => exact ih _
      | some k => exact congrArg (Word.mk k (String.ofList chars) :: ·) (ih _)

/-- Scanning finds the words of the text. -/
theorem map_word_scan (source : String) : (scan source).map word = words source.toList :=
  map_word_place 0 _

/-! ## Names -/

/-- A text that is scanned as an atom, if nothing atomic follows. -/
def IsAtom (s : String) : Prop := s ≠ "" ∧ ∀ c ∈ s.toList, isAtomic c = true

instance (s : String) : Decidable (IsAtom s) :=
  decidable_of_iff (s ≠ "" ∧ s.toList.all isAtomic = true) (by rw [List.all_eq_true]; rfl)

/-- A text that does not go on with a character of an atom. -/
def Stops (cs : List Char) : Prop := ∀ c ∈ cs.head?, isAtomic c = false

theorem stops_nil : Stops [] := fun _ h => absurd h (by simp)

theorem stops_cons {c : Char} {cs : List Char} (h : isAtomic c = false) : Stops (c :: cs) := by
  intro x hx
  rw [List.head?_cons] at hx
  exact Option.some.inj hx ▸ h

/-- A run of characters of one sort ends where another follows. -/
theorem takeWhile_append_of_stops {p : Char → Bool} {as cs : List Char}
    (has : ∀ c ∈ as, p c = true) (hcs : ∀ c ∈ cs.head?, p c = false) :
    (as ++ cs).takeWhile p = as := by
  rw [List.takeWhile_append_of_pos has]
  cases cs with
  | nil => simp
  | cons c cs => rw [List.takeWhile_cons_of_neg (by simp [hcs c rfl]), List.append_nil]

theorem dropWhile_append_of_stops {p : Char → Bool} {as cs : List Char}
    (has : ∀ c ∈ as, p c = true) (hcs : ∀ c ∈ cs.head?, p c = false) :
    (as ++ cs).dropWhile p = cs := by
  rw [List.dropWhile_append_of_pos has]
  cases cs with
  | nil => rfl
  | cons c cs => rw [List.dropWhile_cons_of_neg (by simp [hcs c rfl])]

/-- A character of an atom opens neither a gap nor any other word. -/
theorem isAtomic_iff {c : Char} :
    isAtomic c = true ↔ isGap c = false ∧ c ≠ '(' ∧ c ≠ ')' ∧ c ≠ '"' ∧ c ≠ ';' := by
  simp [isAtomic, and_assoc]

theorem isAtomic_of_isDigit {c : Char} (hc : c.isDigit = true) : isAtomic c = true := by
  have hne : ∀ d : Char, d.isDigit = false → c ≠ d := by
    intro d hd h
    rw [h, hd] at hc
    exact absurd hc (by simp)
  simp [isAtomic, isGap, hne]

/-! ## Taking a text apart -/

@[simp] theorem words_nil : words [] = [] := by
  rw [words, pieces, List.filterMap_nil]

theorem words_cons (c : Char) (cs : List Char) :
    words (c :: cs) = (firstPiece c cs).1.word?.toList ++ words (firstPiece c cs).2 := by
  rw [words, pieces, List.filterMap_cons]
  cases (firstPiece c cs).1.word? <;> rfl

/-- Blanks at the front of a text do not matter. -/
theorem words_gap {c : Char} (hc : isGap c = true) (cs : List Char) :
    words (c :: cs) = words cs := by
  have hdrop : words (c :: cs) = words (cs.dropWhile isGap) := by
    rw [words_cons, firstPiece, if_pos hc]; rfl
  rw [hdrop]
  cases cs with
  | nil => rfl
  | cons d ds =>
      -- a gap takes all blanks at once, so a second blank makes the same piece again
      by_cases hd : isGap d = true
      · rw [List.dropWhile_cons_of_pos hd, words_cons d, firstPiece, if_pos hd]; rfl
      · rw [List.dropWhile_cons_of_neg hd]

@[simp] theorem words_open (cs : List Char) :
    words ('(' :: cs) = ⟨.leftParen, "("⟩ :: words cs := by
  rw [words_cons]; rfl

@[simp] theorem words_close (cs : List Char) :
    words (')' :: cs) = ⟨.rightParen, ")"⟩ :: words cs := by
  rw [words_cons]; rfl

theorem firstPiece_of_isAtomic {c : Char} (hc : isAtomic c = true) (cs : List Char) :
    firstPiece c cs = (⟨some .atom, c :: cs.takeWhile isAtomic⟩, cs.dropWhile isAtomic) := by
  obtain ⟨hgap, hopen, hclose, hquote, hsemi⟩ := isAtomic_iff.mp hc
  simp [firstPiece, hgap, hopen, hclose, hquote, hsemi]

/-- An atom is a word if it stops where it should. -/
theorem words_atom {a : String} (ha : IsAtom a) {cs : List Char} (hcs : Stops cs) :
    words (a.toList ++ cs) = ⟨.atom, a⟩ :: words cs := by
  obtain ⟨hne, hall⟩ := ha
  obtain ⟨c, as, htext⟩ : ∃ c as, a.toList = c :: as :=
    List.exists_cons_of_ne_nil (by simpa using hne)
  rw [htext] at hall
  obtain ⟨hc, has⟩ := List.forall_mem_cons.mp hall
  have hself : String.ofList (c :: as) = a := by rw [← htext, String.ofList_toList]
  rw [htext, List.cons_append, words_cons, firstPiece_of_isAtomic hc,
    takeWhile_append_of_stops has hcs, dropWhile_append_of_stops has hcs]
  simp [Piece.word?, hself]

/-- What a quote opens ends with the next quote, whatever follows. -/
theorem words_string {body : List Char} (hbody : '"' ∉ body) (cs : List Char) :
    words ('"' :: (body ++ '"' :: cs)) =
      ⟨.string, String.ofList ('"' :: (body ++ ['"']))⟩ :: words cs := by
  have hall : ∀ c ∈ body, decide (c ≠ '"') = true := by
    intro c hc
    exact decide_eq_true fun h => hbody (h ▸ hc)
  have hend : ∀ c ∈ ('"' :: cs).head?, decide (c ≠ '"') = false := by simp
  have htake := takeWhile_append_of_stops hall hend
  have hdrop := dropWhile_append_of_stops hall hend
  have hpiece : firstPiece '"' (body ++ '"' :: cs) =
      (⟨some .string, '"' :: body ++ ['"']⟩, cs) := by
    have hnot : isGap '"' = false := by decide
    simp only [firstPiece, hnot, htake, hdrop]
    rfl
  rw [words_cons, hpiece]
  rfl

/-! ## What pieces look like -/

theorem not_mem_takeWhile_ne (d : Char) (cs : List Char) : d ∉ cs.takeWhile (· ≠ d) := by
  intro hmem
  have hne := List.all_eq_true.mp List.all_takeWhile d hmem
  exact absurd hne (by simp)

theorem eq_of_mem_head?_dropWhile_ne {c d : Char} {cs : List Char}
    (h : c ∈ (cs.dropWhile (· ≠ d)).head?) : c = d := by
  have hhead := List.head?_dropWhile_not (· ≠ d) cs
  rw [Option.mem_def.mp h] at hhead
  simpa using hhead

theorem stops_dropWhile (cs : List Char) : Stops (cs.dropWhile isAtomic) := by
  intro c hc
  have hhead := List.head?_dropWhile_not isAtomic cs
  rw [Option.mem_def.mp hc] at hhead
  exact hhead

/-- A piece that is cut off in front of a text: what it looks like, and where it ends. -/
inductive Cut : Piece → List Char → Prop where
  | blanks {gs rest : List Char} (hne : gs ≠ []) (h : ∀ c ∈ gs, isGap c = true) :
      Cut ⟨none, gs⟩ rest
  /-- A comment ends with its line. -/
  | comment {body rest : List Char} (h : '\n' ∉ body) (hrest : ∀ c ∈ rest.head?, c = '\n') :
      Cut ⟨none, ';' :: body⟩ rest
  | leftParen {rest : List Char} : Cut ⟨some .leftParen, ['(']⟩ rest
  | rightParen {rest : List Char} : Cut ⟨some .rightParen, [')']⟩ rest
  | atom {as rest : List Char} (hne : as ≠ []) (h : ∀ c ∈ as, isAtomic c = true)
      (hrest : Stops rest) : Cut ⟨some .atom, as⟩ rest
  | string {body rest : List Char} (h : '"' ∉ body) :
      Cut ⟨some .string, '"' :: (body ++ ['"'])⟩ rest
  | unclosed {body : List Char} (h : '"' ∉ body) : Cut ⟨some .unclosed, '"' :: body⟩ []

/-- **Pieces, taken apart.** -/
theorem cut_firstPiece (c : Char) (cs : List Char) :
    Cut (firstPiece c cs).1 (firstPiece c cs).2 := by
  have hall : ∀ p : Char → Bool, p c = true → ∀ d ∈ c :: cs.takeWhile p, p d = true :=
    fun p hc => List.forall_mem_cons.mpr ⟨hc, List.all_eq_true.mp List.all_takeWhile⟩
  unfold firstPiece
  split
  · next hgap => exact .blanks (by simp) (hall isGap hgap)
  · next hgap =>
    split
    · next hc =>
      subst hc
      exact .comment (not_mem_takeWhile_ne _ cs) fun _ => eq_of_mem_head?_dropWhile_ne
    · next hsemi =>
      split
      · next hc => subst hc; exact .leftParen
      · next hopen =>
        split
        · next hc => subst hc; exact .rightParen
        · next hclose =>
          split
          · next hc =>
            subst hc
            have hbody := not_mem_takeWhile_ne '"' cs
            split
            · exact .unclosed hbody
            · next q rest hq =>
              have hhead : q ∈ (cs.dropWhile (· ≠ '"')).head? := by rw [hq]; rfl
              obtain rfl := eq_of_mem_head?_dropWhile_ne hhead
              exact .string hbody
          · next hquote =>
            have hc := isAtomic_iff.mpr ⟨by simpa using hgap, hopen, hclose, hquote, hsemi⟩
            exact .atom (by simp) (hall isAtomic hc) (stops_dropWhile cs)

end Token

/-- A word that is an atom by its kind is one by its text. -/
def Word.Sound (w : Word) : Prop := w.kind = .atom → Token.IsAtom w.text

namespace Token

theorem Cut.sound {p : Piece} {rest : List Char} {w : Word} (h : Cut p rest)
    (hw : p.word? = some w) : w.Sound := by
  intro hatom
  obtain ⟨k, hk, rfl⟩ := Option.map_eq_some_iff.mp hw
  obtain rfl : k = .atom := hatom
  cases h with
  | atom hne has _ =>
      refine ⟨?_, by rwa [String.toList_ofList]⟩
      intro he
      exact hne (by simpa using congrArg String.toList he)
  | blanks | comment | leftParen | rightParen | string | unclosed => exact absurd hk (by simp)

/-- What holds of every piece that is a word holds of all words of a text. -/
theorem forall_words {P : Word → Prop}
    (h : ∀ {p rest w}, Cut p rest → p.word? = some w → P w) (cs : List Char) :
    ∀ w ∈ words cs, P w := by
  induction cs using pieces.induct with
  | case1 => intro w hw; exact absurd hw (by simp)
  | case2 c cs _ ih =>
      intro w hw
      rw [words_cons, List.mem_append, Option.mem_toList] at hw
      rcases hw with hfirst | hrest
      · exact h (cut_firstPiece c cs) hfirst
      · exact ih w hrest

/-- The words of any text look like their kind. -/
theorem sound_words (cs : List Char) : ∀ w ∈ words cs, Word.Sound w :=
  forall_words Cut.sound cs

end Token

end RegisterMachine
