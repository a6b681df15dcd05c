import RegisterMachine.Proofs.Parsing
import RegisterMachine.Proofs.RoundTrip

/-!
# What is read from a text is no longer than the text

An image has eight bytes for every length, so a description can be too long for an image. One that
was read from a text is not, if the text itself is not: every name and symbol in it is in one word of
the text, every list in it has a word for each member, and all words of a text are disjoint parts of
it.
-/

namespace RegisterMachine

/-! ## The bytes of a text -/

theorem textSize_eq_utf8ByteSize (s : String) : textSize s = s.utf8ByteSize := by
  unfold textSize Utf8.encode
  rw [Array.length_toList]
  exact String.size_toByteArray

theorem textSize_append (s t : String) : textSize (s ++ t) = textSize s + textSize t := by
  simp only [textSize_eq_utf8ByteSize, String.utf8ByteSize_append]

theorem textSize_ofList_append (as bs : List Char) :
    textSize (.ofList (as ++ bs)) = textSize (.ofList as) + textSize (.ofList bs) := by
  rw [String.ofList_append, textSize_append]

/-- Every character takes a byte at least. -/
theorem one_le_textSize {cs : List Char} (h : cs ≠ []) : 1 ≤ textSize (.ofList cs) := by
  have hne : (String.ofList cs).utf8ByteSize ≠ 0 := by simpa using h
  rw [textSize_eq_utf8ByteSize]
  exact Nat.one_le_iff_ne_zero.mpr hne

namespace Token

theorem chars_firstPiece_ne_nil (c : Char) (cs : List Char) : (firstPiece c cs).1.chars ≠ [] := by
  intro hnil
  have happ := chars_firstPiece_append c cs
  have hlen := length_firstPiece_le c cs
  rw [hnil, List.nil_append] at happ
  rw [happ, List.length_cons] at hlen
  omega

/-- The first piece and the rest of a text share its bytes. -/
theorem textSize_firstPiece (c : Char) (cs : List Char) :
    textSize (.ofList (c :: cs))
      = textSize (.ofList (firstPiece c cs).1.chars) + textSize (.ofList (firstPiece c cs).2) := by
  rw [← textSize_ofList_append, chars_firstPiece_append]

/-- **A text has no more words than bytes.** -/
theorem length_words_le (cs : List Char) : (words cs).length ≤ textSize (.ofList cs) := by
  induction cs using pieces.induct with
  | case1 => rw [words_nil]; exact Nat.zero_le _
  | case2 c cs _ ih =>
      have hpiece := one_le_textSize (chars_firstPiece_ne_nil c cs)
      have hword : (firstPiece c cs).1.word?.toList.length ≤ 1 := Option.length_toList_le
      have hrest : (words (firstPiece c cs).2).length ≤ textSize (.ofList (firstPiece c cs).2) := ih
      rw [words_cons, List.length_append, textSize_firstPiece]
      omega

/-- **A word has no more bytes than its text.** -/
theorem textSize_le_of_mem_words (cs : List Char) :
    ∀ w ∈ words cs, textSize w.text ≤ textSize (.ofList cs) := by
  induction cs using pieces.induct with
  | case1 => intro w hw; exact absurd hw (by simp)
  | case2 c cs _ ih =>
      intro w hw
      rw [words_cons, List.mem_append, Option.mem_toList] at hw
      rw [textSize_firstPiece]
      rcases hw with hfirst | hrest
      · obtain ⟨k, _, rfl⟩ := Option.map_eq_some_iff.mp hfirst
        exact Nat.le_add_right _ _
      · exact (ih w hrest).trans (Nat.le_add_left _ _)

end Token

/-! ## Counted in words -/

/-- A number that some words account for: there are as many of them, or one has as many bytes. -/
def Word.Covers (ws : List Word) (n : Nat) : Prop :=
  n ≤ ws.length ∨ ∃ w ∈ ws, n ≤ textSize w.text

namespace Word

variable {ws vs : List Word} {n : Nat}

theorem Covers.mono (h : Covers ws n) (hs : ws.Sublist vs) : Covers vs n := by
  rcases h with hlen | ⟨w, hw, hsize⟩
  · exact Or.inl (hlen.trans hs.length_le)
  · exact Or.inr ⟨w, hs.subset hw, hsize⟩

theorem covers_atom {a : String} (h : Word.ofAtom a ∈ ws) : Covers ws (textSize a) :=
  Or.inr ⟨_, h, Nat.le_refl _⟩

/-- Lists of things with a word at least for each have no more members than words. -/
theorem covers_length {α : Type} {f : α → List Word} (hf : ∀ x, f x ≠ []) (xs : List α) :
    Covers (xs.flatMap f) xs.length := by
  left
  induction xs with
  | nil => exact Nat.zero_le _
  | cons x xs ih =>
      have hx := List.length_pos_iff.mpr (hf x)
      rw [List.flatMap_cons, List.length_append, List.length_cons]
      omega

theorem sublist_flatMap {α : Type} {f : α → List Word} {x : α} {xs : List α} (hx : x ∈ xs) :
    (f x).Sublist (xs.flatMap f) := by
  rw [List.flatMap_def]
  exact List.sublist_flatten_of_mem (List.mem_map_of_mem hx)

end Word

theorem Expr.mem_inputsSizes {xs : List Expr} {n : Nat} :
    n ∈ inputsSizes xs ↔ ∃ x ∈ xs, n ∈ x.sizes := by
  induction xs with
  | nil => simp [inputsSizes]
  | cons x xs ih => rw [inputsSizes, List.mem_append, ih]; simp

/-! ## Derivations -/

namespace Derivation

open Word (Covers covers_atom covers_length sublist_flatMap)

theorem Form.covers_sizes (f : Form) : ∀ n ∈ f.meaning.sizes, Covers f.words n := by
  intro n hn
  cases f with
  | constAtom a =>
      have hvalue : ∀ n ∈ (Value.ofAtom a).sizes, n = textSize a := by
        rw [Value.ofAtom_eq]
        split
        · simp [Value.sizes]
        · split
          · simp [Value.sizes]
          · split <;> simp [Value.sizes]
      rw [hvalue n hn]
      exact covers_atom (by simp [words, argument])
  | constString s =>
      rw [List.mem_singleton.mp hn]
      refine Or.inr ⟨.ofString s, by simp [words, argument], ?_⟩
      rw [Word.ofString, textSize_append, textSize_append]
      omega
  | reg a | label a =>
      rw [List.mem_singleton.mp hn]
      exact covers_atom (by simp [words, argument])
  | op a =>
      rcases List.mem_cons.mp hn with rfl | hn
      · exact covers_atom (by simp [words, argument])
      · rw [List.mem_singleton.mp hn]
        exact Or.inl (Nat.zero_le _)

theorem Expression.covers_sizes (e : Expression) : ∀ n ∈ e.meaning.sizes, Covers e.words n := by
  intro n hn
  cases e with
  | form f _ => exact f.covers_sizes n hn
  | apply name inputs =>
      rcases List.mem_cons.mp hn with rfl | hn
      · exact covers_atom (by simp [words, Form.words, Form.argument])
      rcases List.mem_cons.mp hn with rfl | hn
      · rw [List.length_map]
        exact (covers_length (by simp [Form.words]) inputs).mono (List.sublist_append_right _ _)
      · obtain ⟨x, hx, hn⟩ := Expr.mem_inputsSizes.mp hn
        obtain ⟨f, hf, rfl⟩ := List.mem_map.mp hx
        exact (f.covers_sizes n hn).mono ((sublist_flatMap hf).trans (List.sublist_append_right _ _))

theorem Instruction.covers_sizes (i : Instruction) : ∀ n ∈ i.meaning.sizes, Covers i.words n := by
  intro n hn
  cases i with
  | assign reg source =>
      rcases List.mem_cons.mp hn with rfl | hn
      · exact covers_atom (by simp [words, operands])
      · exact (source.covers_sizes n hn).mono ((List.sublist_cons_self _ _).cons _)
  | act verb e =>
      have he : n ∈ e.meaning.sizes := by cases verb <;> exact hn
      exact (e.covers_sizes n he).mono (List.sublist_cons_self _ _)
  | move verb reg =>
      have hr : n = textSize reg := by cases verb <;> exact List.mem_singleton.mp hn
      rw [hr]
      exact covers_atom (by simp [words, operands])

theorem Item.covers_sizes (x : Item) : ∀ n ∈ x.meaning.sizes, Covers x.words n := by
  intro n hn
  cases x with
  | label a =>
      rw [List.mem_singleton.mp hn]
      exact covers_atom (by simp [words])
  | instruction i => exact (i.covers_sizes n hn).mono ((List.sublist_append_left _ _).cons _)

theorem sublist_listing (head : String) (ws : List Word) : ws.Sublist (listing head ws) :=
  ((List.sublist_append_left ws [.closing]).cons _).cons _

/-- **The words of a machine account for all lengths in it.** -/
theorem Machine.covers_sizes (m : Machine) : ∀ n ∈ m.meaning.sizes, Covers m.words n := by
  have hregisters : (m.registers.flatMap ([Word.ofAtom ·])).Sublist m.words :=
    (sublist_listing _ _).trans ((List.sublist_append_left _ _).trans (sublist_listing _ _))
  have hitems : (m.items.flatMap Item.words).Sublist m.words :=
    (sublist_listing _ _).trans ((List.sublist_append_right _ _).trans (sublist_listing _ _))
  intro n hn
  rcases List.mem_append.mp hn with hn | hn
  · rcases List.mem_cons.mp hn with rfl | hn
    · exact (covers_length (by simp) m.registers).mono hregisters
    · obtain ⟨name, hname, rfl⟩ := List.mem_map.mp hn
      refine (covers_atom ?_).mono hregisters
      exact List.mem_flatMap.mpr ⟨name, hname, List.mem_singleton_self _⟩
  · rcases List.mem_cons.mp hn with rfl | hn
    · rw [show m.meaning.controller.length = m.items.length from List.length_map _]
      exact (covers_length (fun x => by cases x <;> simp [Item.words]) m.items).mono hitems
    · obtain ⟨x, hx, hn⟩ := List.mem_flatMap.mp hn
      obtain ⟨y, hy, rfl⟩ := List.mem_map.mp hx
      exact (y.covers_sizes n hn).mono ((sublist_flatMap hy).trans hitems)

end Derivation

/-- **No length in a description is greater than that of the text it was read from.** -/
theorem Description.sizes_le_of_source {source : String} {d : Description}
    (h : ofSource source = .ok d) : ∀ n ∈ d.sizes, n ≤ textSize source := by
  intro n hn
  obtain ⟨m, rfl, hwords⟩ := Derivation.ofSource_eq_ok.mp h
  have hcovers := m.covers_sizes n hn
  rw [← hwords, Token.map_word_scan] at hcovers
  have hsource : String.ofList source.toList = source := String.ofList_toList
  rcases hcovers with hlen | ⟨w, hw, hsize⟩
  · have hbound := Token.length_words_le source.toList
    rw [hsource] at hbound
    exact hlen.trans hbound
  · have hbound := Token.textSize_le_of_mem_words source.toList w hw
    rw [hsource] at hbound
    exact hsize.trans hbound

end RegisterMachine
