import RegisterMachine.Proofs.Derivation

/-!
# Words that can be written

Not every word can stand in a text: an atom has to be made of the characters of atoms, a string has
no quote within, and what is never closed cannot be followed by anything. Of the words that can be
written (`Word.Spelled`) any row is the words of some text, written one behind the other with blanks
between (`Token.exists_words`). So what is shown of rows of words is shown of texts.
-/

namespace RegisterMachine

/-- A word that can stand anywhere in a text. -/
def Word.Spelled (w : Word) : Prop :=
  match w.kind with
  | .leftParen => w = .opening
  | .rightParen => w = .closing
  | .atom => Token.IsAtom w.text
  | .string => ∃ s, '"' ∉ s.toList ∧ w = .ofString s
  | .unclosed => False

namespace Word

theorem spelled_opening : opening.Spelled := rfl

theorem spelled_closing : closing.Spelled := rfl

theorem spelled_ofAtom {a : String} (h : Token.IsAtom a) : (ofAtom a).Spelled := h

theorem Spelled.kind_ne {w : Word} (h : w.Spelled) : w.kind ≠ .unclosed := by
  intro hkind
  unfold Spelled at h
  rw [hkind] at h
  exact h

theorem toList_text_ofString (s : String) :
    (ofString s).text.toList = '"' :: (s.toList ++ ['"']) := by
  simp [ofString]

end Word

namespace Token

/-- A word that is cut off can be written, but for one that is never closed. -/
theorem Cut.spelled {p : Piece} {rest : List Char} {w : Word} (h : Cut p rest)
    (hw : p.word? = some w) (hclosed : w.kind ≠ .unclosed) : w.Spelled := by
  have hsound := h.sound hw
  obtain ⟨k, hk, rfl⟩ := Option.map_eq_some_iff.mp hw
  cases h with
  | blanks | comment => exact absurd hk (by simp)
  | leftParen | rightParen => rw [← Option.some.inj hk]; rfl
  | atom =>
      obtain rfl := Option.some.inj hk
      exact hsound rfl
  | @string body _ hbody =>
      obtain rfl := Option.some.inj hk
      refine ⟨String.ofList body, by rwa [String.toList_ofList], ?_⟩
      exact congrArg (Word.mk .string) (String.toList_inj.mp (by simp))
  | unclosed => exact absurd (Option.some.inj hk).symm hclosed

/-- **The words of a text can be written**, but for one that is never closed. -/
theorem spelled_of_kind_ne (cs : List Char) :
    ∀ w ∈ words cs, w.kind ≠ .unclosed → w.Spelled :=
  forall_words Cut.spelled cs

/-- A word in front of a text, if the text does not go on with it. -/
theorem words_spelled {w : Word} (h : w.Spelled) {cs : List Char}
    (hcs : w.kind = .atom → Stops cs) : words (w.text.toList ++ cs) = w :: words cs := by
  obtain ⟨kind, text⟩ := w
  cases kind with
  | leftParen =>
      obtain rfl : text = "(" := congrArg Word.text h
      exact words_open cs
  | rightParen =>
      obtain rfl : text = ")" := congrArg Word.text h
      exact words_close cs
  | atom => exact words_atom h (hcs rfl)
  | string =>
      obtain ⟨s, hs, hword⟩ := h
      have hwords := words_string hs cs
      rw [← Word.toList_text_ofString, String.ofList_toList] at hwords
      rw [hword, Word.toList_text_ofString, List.cons_append, List.append_assoc]
      exact hwords
  | unclosed => exact absurd rfl h.kind_ne

/-- **Words that can be written are the words of a text.** -/
theorem exists_words {ws : List Word} (h : ∀ w ∈ ws, w.Spelled) : ∃ cs, words cs = ws := by
  induction ws with
  | nil => exact ⟨[], words_nil⟩
  | cons w ws ih =>
      obtain ⟨hw, hws⟩ := List.forall_mem_cons.mp h
      obtain ⟨cs, hcs⟩ := ih hws
      refine ⟨w.text.toList ++ ' ' :: cs, ?_⟩
      rw [words_spelled hw fun _ => stops_cons (by decide), words_gap (by decide), hcs]

end Token

end RegisterMachine
