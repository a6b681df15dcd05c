import Mathlib
import RegisterMachine.Proofs.Placeless
import RegisterMachine.Proofs.Spelling

/-!
# Layout does not matter

The words of a text can be set apart in any other way: by blanks, by comments of any content as long
as each ends with its line, or by nothing at all, but for two atoms, which would run together. A text
in which they are laid out so (`Layout`) has the same words, and what is read of it, be it a
description, lines or an error, is the same.

Where a word ends is decided by the character behind it, and only an atom asks for one (`Stops`). In a
layout that character belongs to a gap or to the next word, and neither begins like an atom goes on
unless the next word is an atom itself.
-/

namespace RegisterMachine

namespace Token

/-- What can stand between any two words: blanks, and comments with the newline that ends them. -/
inductive Spacing : List Char → Prop where
  | nil : Spacing []
  | blank {c : Char} {gap : List Char} (hc : isGap c = true) (h : Spacing gap) : Spacing (c :: gap)
  | comment {body gap : List Char} (hbody : '\n' ∉ body) (h : Spacing gap) :
      Spacing (';' :: (body ++ '\n' :: gap))

/-- A word, and the gap that follows it. -/
structure Placed where
  word : Word
  gap : List Char

/-- Words with a gap behind each and one in front of all. -/
structure Layout where
  front : List Char
  placed : List Placed
  front_spacing : Spacing front
  gap_spacing : ∀ p ∈ placed, Spacing p.gap
  apart : placed.IsChain fun p q => p.word.kind = .atom → q.word.kind = .atom → p.gap ≠ []

/-- Words and gaps as they are written. -/
def charsPlaced (ps : List Placed) : List Char := ps.flatMap fun p => p.word.text.toList ++ p.gap

theorem charsPlaced_cons (p : Placed) (ps : List Placed) :
    charsPlaced (p :: ps) = p.word.text.toList ++ (p.gap ++ charsPlaced ps) :=
  List.append_assoc ..

namespace Layout

def words (l : Layout) : List Word := l.placed.map Placed.word

def text (l : Layout) : String := String.ofList (l.front ++ charsPlaced l.placed)

end Layout

/-! ## Gaps -/

variable {gap : List Char}

/-- A comment is skipped, whatever it says. -/
theorem words_comment {body : List Char} (hbody : '\n' ∉ body) (cs : List Char) :
    words (';' :: (body ++ '\n' :: cs)) = words cs := by
  have hall : ∀ c ∈ body, decide (c ≠ '\n') = true := by
    intro c hc
    exact decide_eq_true fun h => hbody (h ▸ hc)
  have hend : ∀ c ∈ ('\n' :: cs).head?, decide (c ≠ '\n') = false := by simp
  have hdrop := dropWhile_append_of_stops hall hend
  have hrest : words (';' :: (body ++ '\n' :: cs)) = words ('\n' :: cs) := by
    rw [words_cons, firstPiece, if_neg (by decide), if_pos rfl, hdrop]
    rfl
  rw [hrest, words_gap (by decide)]

/-- **There are no words in a gap.** -/
theorem words_spacing (h : Spacing gap) (cs : List Char) : words (gap ++ cs) = words cs := by
  induction h with
  | nil => rfl
  | blank hc _ ih => exact (words_gap hc _).trans ih
  | comment hbody _ ih =>
      rw [List.cons_append, List.append_assoc, List.cons_append, words_comment hbody, ih]

theorem isAtomic_of_isGap {c : Char} (h : isGap c = true) : isAtomic c = false := by
  unfold isAtomic
  rw [h]
  rfl

/-- An atom ends in front of a gap. -/
theorem stops_spacing (h : Spacing gap) (hne : gap ≠ []) (cs : List Char) : Stops (gap ++ cs) := by
  cases h with
  | nil => exact absurd rfl hne
  | blank hc _ => exact stops_cons (isAtomic_of_isGap hc)
  | comment _ _ => exact stops_cons (by decide)

/-! ## Words between gaps -/

/-- An atom ends in front of any word that is no atom. -/
theorem stops_spelled {w : Word} (h : w.Spelled) (hw : w.kind ≠ .atom) (cs : List Char) :
    Stops (w.text.toList ++ cs) := by
  obtain ⟨kind, text⟩ := w
  cases kind with
  | leftParen =>
      obtain rfl : text = "(" := congrArg Word.text h
      exact stops_cons (by decide)
  | rightParen =>
      obtain rfl : text = ")" := congrArg Word.text h
      exact stops_cons (by decide)
  | atom => exact absurd rfl hw
  | string =>
      obtain ⟨s, _, hword⟩ := h
      rw [hword, Word.toList_text_ofString]
      exact stops_cons (by decide)
  | unclosed => exact absurd rfl h.kind_ne

/-- **Words that are kept apart are the words of their text.** -/
theorem words_charsPlaced {ps : List Placed} (hwords : ∀ p ∈ ps, p.word.Spelled)
    (hgaps : ∀ p ∈ ps, Spacing p.gap)
    (hapart : ps.IsChain fun p q => p.word.kind = .atom → q.word.kind = .atom → p.gap ≠ []) :
    words (charsPlaced ps) = ps.map Placed.word := by
  induction ps with
  | nil => exact words_nil
  | cons p ps ih =>
      obtain ⟨hword, hwords⟩ := List.forall_mem_cons.mp hwords
      obtain ⟨hgap, hgaps⟩ := List.forall_mem_cons.mp hgaps
      have hstops : p.word.kind = .atom → Stops (p.gap ++ charsPlaced ps) := by
        intro hatom
        by_cases hne : p.gap = []
        · rw [hne, List.nil_append]
          cases ps with
          | nil => exact stops_nil
          | cons q ps =>
              -- atoms have a gap between them, so the next word is none
              have hnext := (List.isChain_cons_cons.mp hapart).1 hatom
              have hq : q.word.kind ≠ .atom := fun h => hnext h hne
              rw [charsPlaced_cons]
              exact stops_spelled (hwords q List.mem_cons_self) hq _
        · exact stops_spacing hgap hne _
      rw [charsPlaced_cons, words_spelled hword hstops, words_spacing hgap,
        ih hwords hgaps hapart.tail]
      rfl

/-- A text in which the words of another are laid out has the same words. -/
theorem Layout.map_word_scan {l : Layout} (h : ∀ w ∈ l.words, w.Spelled) :
    (scan l.text).map word = l.words := by
  rw [Token.map_word_scan, Layout.text, String.toList_ofList, words_spacing l.front_spacing]
  refine words_charsPlaced ?_ l.gap_spacing l.apart
  intro p hp
  exact h p.word (List.mem_map_of_mem hp)

/--
**Layout does not matter.**

Take any source text whose strings all end and set its words apart in any other way. The new text is
scanned to words of the same kinds with the same texts, and it is read as the same description, or as
the same lines of a controller, or refused with the same error.
-/
theorem layout_immaterial {source : String} (hclosed : ∀ t ∈ scan source, t.kind ≠ .unclosed)
    (l : Layout) (hwords : l.words = (scan source).map word) :
    (scan l.text).map word = (scan source).map word ∧
      Description.ofSource l.text = Description.ofSource source ∧
      Item.listOfSource l.text = Item.listOfSource source := by
  have hspelled : ∀ w ∈ l.words, w.Spelled := by
    intro w hw
    rw [hwords] at hw
    obtain ⟨t, ht, rfl⟩ := List.mem_map.mp hw
    have hmem : t.word ∈ words source.toList := by
      rw [← Token.map_word_scan]
      exact List.mem_map_of_mem ht
    exact spelled_of_kind_ne source.toList _ hmem (hclosed t ht)
  have hsame : (scan l.text).map word = (scan source).map word :=
    (Layout.map_word_scan hspelled).trans hwords
  have habreast : (Cursor.ofSource l.text).Abreast (Cursor.ofSource source) := hsame
  exact ⟨hsame, (Reading.placeless_description habreast).1, (Reading.placeless_items habreast).1⟩

/-- A label and an assignment without a blank, and with a quote and parentheses in comments. -/
def crowded : Layout where
  front := [';', ' ', '"', '(', '\n']
  placed := [⟨.ofAtom "x", []⟩, ⟨.opening, []⟩, ⟨.ofAtom "assign", [';', ')', '\n']⟩,
    ⟨.ofAtom "y", []⟩, ⟨.opening, []⟩, ⟨.ofAtom "const", []⟩, ⟨.ofString "a;b", []⟩,
    ⟨.closing, []⟩, ⟨.closing, ['\r']⟩]
  front_spacing := @Spacing.comment [' ', '"', '('] [] (by decide) .nil
  gap_spacing := by
    have hcomment : Spacing [';', ')', '\n'] := @Spacing.comment [')'] [] (by decide) .nil
    have hblank : Spacing ['\r'] := .blank (by decide) .nil
    simp [Spacing.nil, hcomment, hblank]
  apart := by simp [Word.ofAtom, Word.opening, Word.closing, Word.ofString]

theorem layout_immaterial_crowded :
    (∀ t ∈ scan "x (assign y (const \"a;b\"))", t.kind ≠ .unclosed) ∧
      crowded.text = "; \"(\nx(assign;)\ny(const\"a;b\"))\r" ∧
      crowded.words = (scan "x (assign y (const \"a;b\"))").map word ∧
      Item.listOfSource crowded.text =
        .ok [.label "x", .instruction (.assign "y" (.const (.symbol "a;b")))] := by
  have hclosed : ∀ t ∈ scan "x (assign y (const \"a;b\"))", t.kind ≠ .unclosed := by
    decide +kernel
  have hwords : crowded.words = (scan "x (assign y (const \"a;b\"))").map word := by
    decide +kernel
  have hread : Item.listOfSource "x (assign y (const \"a;b\"))" =
      .ok [.label "x", .instruction (.assign "y" (.const (.symbol "a;b")))] := by
    cbv
  exact ⟨hclosed, by decide +kernel, hwords,
    (layout_immaterial hclosed crowded hwords).2.2.trans hread⟩

end Token

end RegisterMachine
