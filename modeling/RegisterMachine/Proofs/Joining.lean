import RegisterMachine.Proofs.Layout
import RegisterMachine.Proofs.Parsing

/-!
# Controllers one behind the other

The lines of a controller can be written in two texts and the texts be put together with a newline in
between. If the first is read, the whole is read as the second is: to the lines of both, or to the
error of the second. Where the first text ends nothing is under way any more. In the text, the newline
ends a comment or an atom, and no string is left open in what was read; among the words, an item ends
with its last word, whatever comes next.
-/

namespace RegisterMachine

namespace Token

variable {cs ds : List Char}

theorem words_blanks {gs : List Char} (h : ∀ c ∈ gs, isGap c = true) (cs : List Char) :
    words (gs ++ cs) = words cs := by
  induction gs with
  | nil => rfl
  | cons c gs ih =>
      obtain ⟨hc, hgs⟩ := List.forall_mem_cons.mp h
      exact (words_gap hc _).trans (ih hgs)

/-- A text that does not go on with an atom still does not if a line is added. -/
theorem Stops.append_line (h : Stops cs) (ds : List Char) : Stops (cs ++ '\n' :: ds) := by
  cases cs with
  | nil => exact stops_cons (by decide)
  | cons c cs => exact stops_cons (h c rfl)

/-- **A piece is the same piece in front of a longer text**, if the longer text goes on with a new
line where the shorter one ends. -/
theorem Cut.words_append {p : Piece} {rest : List Char} (h : Cut p rest)
    (hclosed : ∀ w, p.word? = some w → w.kind ≠ .unclosed) (ds : List Char) :
    words (p.chars ++ (rest ++ '\n' :: ds)) = p.word?.toList ++ words (rest ++ '\n' :: ds) := by
  cases hword : p.word? with
  | some w =>
      have hspelled := h.spelled hword (hclosed w hword)
      have hstops : w.kind = .atom → Stops (rest ++ '\n' :: ds) := by
        intro hatom
        obtain ⟨k, hk, rfl⟩ := Option.map_eq_some_iff.mp hword
        obtain rfl : k = .atom := hatom
        cases h with
        | atom _ _ hrest => exact hrest.append_line ds
        | blanks | comment | leftParen | rightParen | string | unclosed =>
            exact absurd hk (by simp)
      have hwords := words_spelled hspelled hstops
      obtain ⟨k, _, rfl⟩ := Option.map_eq_some_iff.mp hword
      rwa [String.toList_ofList] at hwords
  | none =>
      cases h with
      | blanks _ hgs => exact words_blanks hgs _
      | @comment body _ hbody hrest =>
          -- the comment ends with its line, be it an old one or the one that is added
          obtain ⟨tail, htail⟩ : ∃ tail, rest ++ '\n' :: ds = '\n' :: tail := by
            cases rest with
            | nil => exact ⟨ds, rfl⟩
            | cons c rest => exact ⟨rest ++ '\n' :: ds, by rw [hrest c rfl]; rfl⟩
          rw [htail]
          exact (words_comment hbody tail).trans (words_gap (by decide) tail).symm
      | leftParen | rightParen | atom | string | unclosed =>
          exact absurd hword (by simp [Piece.word?])

/-- **The words of two texts**, one behind the other with a newline between them. -/
theorem words_append (hclosed : ∀ w ∈ words cs, w.kind ≠ .unclosed) (ds : List Char) :
    words (cs ++ '\n' :: ds) = words cs ++ words ds := by
  induction cs using pieces.induct with
  | case1 => rw [words_nil]; exact words_gap (by decide) ds
  | case2 c cs _ ih =>
      rw [words_cons] at hclosed ⊢
      obtain ⟨hfirst, hrest⟩ := List.forall_mem_append.mp hclosed
      have hword : ∀ w, (firstPiece c cs).1.word? = some w → w.kind ≠ .unclosed := by
        intro w hw
        exact hfirst w (Option.mem_toList.mpr hw)
      rw [← chars_firstPiece_append c cs, List.append_assoc,
        (cut_firstPiece c cs).words_append hword, ih hrest, List.append_assoc]

end Token

namespace Reading

variable {α τ : Type} {p : Reading α} {words : τ → List Word} {meaning : τ → α}
  {more : Option Token.Kind → Bool} {c d : Cursor}

/-- **Behind trees that it has taken a repetition goes on** as one that begins there. -/
theorem repeatWhile_behind (hp : Derives p words meaning)
    (hfirst : ∀ x, ∃ w ws, words x = w :: ws ∧ more (some w.kind) = true) (hc : c.Genuine)
    {xs : List τ} (hxs : c.Passes (xs.flatMap words) d) :
    (repeatWhile more p c).1 = (repeatWhile more p d).1.map (xs.map meaning ++ ·) := by
  induction xs generalizing c with
  | nil =>
      obtain rfl := Cursor.passes_nil.mp hxs
      cases (repeatWhile more p c).1 <;> rfl
  | cons x xs ih =>
      rw [List.flatMap_cons] at hxs
      obtain ⟨c', hx, hxs⟩ := Cursor.passes_append.mp hxs
      obtain ⟨w, ws, hwords, hmore⟩ := hfirst x
      have hanswer : p c = (.ok (meaning x), c') := (hp hc).mpr ⟨x, rfl, hx⟩
      have hbehind := ih (hx.genuine hc) hxs
      rw [hwords] at hx
      rw [repeatWhile, if_pos (by rw [hx.peek]; exact hmore), hanswer]
      dsimp only
      rw [dif_pos hx.shorter]
      generalize repeatWhile more p c' = r at hbehind
      generalize (repeatWhile more p d).1 = answers at hbehind
      obtain ⟨_, c''⟩ := r
      obtain rfl := hbehind
      cases answers with
      | error e => rfl
      | ok as => rfl

end Reading

/--
**Controllers can be put together line by line.**

Take a text that is read as the lines of a controller, and any other text. Written one behind the
other with a newline between them they are read as the second is: as the lines of the first with those
of the second behind them, or not at all, for the same error as the second.
-/
theorem Item.listOfSource_append {front : String} {xs : List Item}
    (h : Item.listOfSource front = .ok xs) (back : String) :
    Item.listOfSource (front ++ "\n" ++ back) = (Item.listOfSource back).map (xs ++ ·) := by
  obtain ⟨ys, rfl, hfront⟩ := Derivation.listOfSource_eq_ok.mp h
  rw [Token.map_word_scan] at hfront
  have hclosed : ∀ w ∈ Token.words front.toList, w.kind ≠ .unclosed := by
    intro w hw
    rw [hfront] at hw
    exact Derivation.Item.kind_of_mem_flatMap_words hw
  have hsource : (front ++ "\n" ++ back).toList = front.toList ++ '\n' :: back.toList := by simp
  have hwords : (Token.scan (front ++ "\n" ++ back)).map Token.word =
      ys.flatMap Derivation.Item.words ++ (Token.scan back).map Token.word := by
    rw [Token.map_word_scan, Token.map_word_scan, hsource, Token.words_append hclosed, hfront]
  -- behind the items of the first text the same words stand as in the second
  obtain ⟨d, hpasses, hbehind⟩ :=
    Cursor.exists_passes (c := .ofSource (front ++ "\n" ++ back)) hwords
  have habreast : d.Abreast (.ofSource back) := hbehind
  calc Item.listOfSource (front ++ "\n" ++ back)
      = (Reading.items d).1.map (ys.map Derivation.Item.meaning ++ ·) :=
        Reading.repeatWhile_behind Reading.derives_item Reading.more_item
          (Cursor.genuine_ofSource _) hpasses
    _ = (Item.listOfSource back).map (ys.map Derivation.Item.meaning ++ ·) := by
        rw [(Reading.placeless_items habreast).1]
        rfl

/-- What could be another input of the operation begins a line, and heads none. -/
theorem Item.listOfSource_append_comment :
    (∃ xs, listOfSource "x (perform (op f)) ; (\"" = .ok xs) ∧
      listOfSource "(reg y)" = .error (.unknownForm "reg") ∧
      listOfSource ("x (perform (op f)) ; (\"" ++ "\n" ++ "(reg y)") =
        .error (.unknownForm "reg") := by
  have hfront : listOfSource "x (perform (op f)) ; (\"" =
      .ok [.label "x", .instruction (.perform (.op "f" []))] := by
    cbv
  have hback : listOfSource "(reg y)" = .error (.unknownForm "reg") := by cbv
  have happend := listOfSource_append hfront "(reg y)"
  rw [hback] at happend
  exact ⟨⟨_, hfront⟩, hback, happend⟩

end RegisterMachine
