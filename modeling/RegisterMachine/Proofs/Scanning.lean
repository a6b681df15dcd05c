import Mathlib.Data.List.Induction
import RegisterMachine.Proofs.Words

/-!
# Nothing is lost in scanning

Between the tokens of a source text there are only blanks and comments, every token has the text of
the place that it names, and that text looks like its kind. What ends a token is part of that: an
atom has no atomic character on either side, and only a quote that is never closed takes the rest of
the text.

A scanned text is described from left to right, by what lies behind a token at a time (`Laid`). The
description is found by induction over the pieces that the text is cut into (`laid_pieces`), where
what was cut off so far must not end in the middle of an atom (`Fresh`); each property of the tokens
is then an induction over the description.
-/

namespace RegisterMachine.Token

/-- What lies between tokens, in front of `rest`: blanks, and comments from a semicolon to the end of
the line or of the source. -/
inductive Gap (rest : List Char) : List Char → Prop where
  | nil : Gap rest []
  | blank {c : Char} {gap : List Char} (hc : isGap c = true) (h : Gap rest gap) :
      Gap rest (c :: gap)
  | comment {body gap : List Char} (hbody : '\n' ∉ body)
      (hend : ∀ c ∈ (gap ++ rest).head?, c = '\n') (h : Gap rest gap) :
      Gap rest (';' :: (body ++ gap))

/-- What the text of a token looks like, and what may stand before and behind it. -/
inductive Shaped (before : List Char) : Kind → List Char → List Char → Prop where
  | leftParen {after : List Char} : Shaped before .leftParen ['('] after
  | rightParen {after : List Char} : Shaped before .rightParen [')'] after
  | atom {as after : List Char} (hne : as ≠ []) (h : ∀ c ∈ as, isAtomic c = true)
      (hbefore : ∀ c ∈ before.getLast?, isAtomic c = false) (hafter : Stops after) :
      Shaped before .atom as after
  | string {body after : List Char} (h : '"' ∉ body) :
      Shaped before .string ('"' :: (body ++ ['"'])) after
  | unclosed {body : List Char} (h : '"' ∉ body) : Shaped before .unclosed ('"' :: body) []

/-- A text takes the bytes of a source from `start` to `stop`. -/
structure Span (source : List Char) (start stop : Nat) (before text after : List Char) : Prop where
  source_eq : source = before ++ (text ++ after)
  start_eq : byteSize before = start
  stop_eq : byteSize (before ++ text) = stop

/-- Where the last of some tokens stops, or `i` if there is none. -/
def lastStop (i : Nat) : List Token → Nat
  | [] => i
  | t :: ts => lastStop t.stop ts

/-- Where the first of some tokens starts, or `i` if there is none. -/
def firstStart (i : Nat) : List Token → Nat
  | [] => i
  | t :: _ => t.start

/-- Tokens that account for every character of a source. -/
structure Lossless (source : List Char) (ts : List Token) : Prop where
  nonempty : ∀ t ∈ ts, t.start < t.stop
  ordered : ts.Pairwise fun t t' => t.stop ≤ t'.start
  /-- The text of a token is that of its place, and looks like its kind there. -/
  shaped : ∀ t ∈ ts, ∃ before after, Span source t.start t.stop before t.text.toList after
    ∧ Shaped before t.kind t.text.toList after
  /-- Wherever the tokens are parted, in front of all of them and behind all of them too, there is a
  gap. -/
  gaps : ∀ ts₁ ts₂, ts = ts₁ ++ ts₂ → ∃ before gap after,
    Span source (lastStop 0 ts₁) (firstStart (byteSize source) ts₂) before gap after ∧ Gap after gap
  /-- Only the last token can be one that is never closed. -/
  unclosed : ∀ ts₁ t ts₂, ts = ts₁ ++ t :: ts₂ → t.kind = .unclosed → ts₂ = []

/-! ## Counting bytes -/

theorem byteSize_eq (cs : List Char) : byteSize cs = (String.ofList cs).utf8ByteSize := by
  induction cs using List.reverseRecOn with
  | nil => rfl
  | append_singleton cs c ih =>
      have hlast : byteSize (cs ++ [c]) = byteSize cs + c.utf8Size := List.foldl_append
      rw [hlast, ih, String.ofList_append, String.utf8ByteSize_append]
      simp

theorem byteSize_append (as bs : List Char) :
    byteSize (as ++ bs) = byteSize as + byteSize bs := by
  simp only [byteSize_eq, String.ofList_append, String.utf8ByteSize_append]

theorem byteSize_pos {cs : List Char} (h : cs ≠ []) : 0 < byteSize cs := by
  rw [byteSize_eq]
  exact Nat.pos_of_ne_zero (by simpa using h)

/-! ## Laid out from left to right -/

/-- How a source goes on behind `before`, and the tokens that are left in it. -/
inductive Laid : List Char → List Char → List Token → Prop where
  | done {before gap : List Char} (hg : Gap [] gap) : Laid before gap []
  | token {before gap text rest : List Char} {kind : Kind} {ts : List Token}
      (hg : Gap (text ++ rest) gap) (hs : Shaped (before ++ gap) kind text rest)
      (h : Laid (before ++ gap ++ text) rest ts) :
      Laid before (gap ++ (text ++ rest))
        (⟨kind, String.ofList text, byteSize (before ++ gap), byteSize (before ++ gap ++ text)⟩ :: ts)

variable {before cs text rest : List Char} {kind : Kind} {t : Token} {ts : List Token}

theorem Shaped.ne_nil (h : Shaped before kind text rest) : text ≠ [] := by
  cases h with
  | atom hne => exact hne
  | leftParen | rightParen | string | unclosed => simp

namespace Laid

theorem nonempty (h : Laid before cs ts) : ∀ t ∈ ts, t.start < t.stop := by
  induction h with
  | done => exact nofun
  | token _ hs _ ih =>
      refine List.forall_mem_cons.mpr ⟨?_, ih⟩
      dsimp only
      rw [byteSize_append (_ ++ _)]
      exact Nat.lt_add_of_pos_right (byteSize_pos hs.ne_nil)

/-- Tokens that are left start behind what is done. -/
theorem le_start (h : Laid before cs ts) : ∀ t ∈ ts, byteSize before ≤ t.start := by
  induction h with
  | done => exact nofun
  | token _ _ _ ih =>
      refine List.forall_mem_cons.mpr ⟨?_, ?_⟩
      · rw [byteSize_append]
        exact Nat.le_add_right _ _
      · intro t ht
        have hle := ih t ht
        rw [byteSize_append, byteSize_append] at hle
        omega

theorem ordered (h : Laid before cs ts) : ts.Pairwise fun t t' => t.stop ≤ t'.start := by
  induction h with
  | done => exact List.Pairwise.nil
  | token _ _ h ih => exact List.Pairwise.cons h.le_start ih

theorem shaped (h : Laid before cs ts) :
    ∀ t ∈ ts, ∃ front after, Span (before ++ cs) t.start t.stop front t.text.toList after
      ∧ Shaped front t.kind t.text.toList after := by
  induction h with
  | done => exact nofun
  | @token before gap text rest kind ts _ hs _ ih =>
      refine List.forall_mem_cons.mpr ⟨?_, ?_⟩
      · refine ⟨before ++ gap, rest, ?_⟩
        rw [String.toList_ofList]
        exact ⟨⟨(List.append_assoc ..).symm, rfl, rfl⟩, hs⟩
      · intro t ht
        obtain ⟨front, after, hspan, hshaped⟩ := ih t ht
        have hsource : before ++ (gap ++ (text ++ rest)) = before ++ gap ++ text ++ rest := by simp
        rw [hsource]
        exact ⟨front, after, hspan, hshaped⟩

theorem gaps (h : Laid before cs ts) :
    ∀ ts₁ ts₂, ts = ts₁ ++ ts₂ → ∃ front gap after,
      Span (before ++ cs) (lastStop (byteSize before) ts₁)
        (firstStart (byteSize (before ++ cs)) ts₂) front gap after ∧ Gap after gap := by
  induction h with
  | @done before gap hg =>
      intro ts₁ ts₂ happ
      obtain ⟨rfl, rfl⟩ := List.append_eq_nil_iff.mp happ.symm
      exact ⟨before, gap, [], ⟨by rw [List.append_nil], rfl, rfl⟩, hg⟩
  | @token before gap text rest kind ts hg _ _ ih =>
      intro ts₁ ts₂ happ
      have hsource : before ++ (gap ++ (text ++ rest)) = before ++ gap ++ text ++ rest := by simp
      cases ts₁ with
      -- parted in front of the first token, or further on
      | nil =>
          rw [List.nil_append] at happ
          subst happ
          exact ⟨before, gap, text ++ rest, ⟨rfl, rfl, rfl⟩, hg⟩
      | cons t ts₁ =>
          obtain ⟨rfl, hts⟩ := List.cons.inj happ
          rw [hsource]
          exact ih ts₁ ts₂ hts

/-- Behind a token that is never closed there is nothing left. -/
theorem unclosed (h : Laid before cs ts) :
    ∀ ts₁ t ts₂, ts = ts₁ ++ t :: ts₂ → t.kind = .unclosed → ts₂ = [] := by
  induction h with
  | done =>
      intro ts₁ t ts₂ happ
      exact absurd happ (by simp)
  | @token before gap text rest kind ts _ hs h ih =>
      intro ts₁ t ts₂ happ hkind
      cases ts₁ with
      | nil =>
          obtain ⟨rfl, rfl⟩ := List.cons.inj happ
          obtain rfl : kind = .unclosed := hkind
          cases hs with
          | unclosed =>
              generalize hnil : ([] : List Char) = rest at h
              cases h with
              | done => rfl
              | token _ hs _ =>
                  obtain ⟨_, htext⟩ := List.append_eq_nil_iff.mp hnil.symm
                  exact absurd (List.append_eq_nil_iff.mp htext).1 hs.ne_nil
      | cons t' ts₁ => exact ih ts₁ t ts₂ (List.cons.inj happ).2 hkind

/-- **Tokens that are laid out account for every character.** -/
theorem lossless (h : Laid [] cs ts) : Lossless cs ts :=
  ⟨h.nonempty, h.ordered, h.shaped, h.gaps, h.unclosed⟩

/-! ## Cutting a text into pieces lays it out -/

/-- What goes on a gap in front can go in front of the gap before the first token. -/
theorem gap {gap : List Char} (hadd : ∀ gap' rest', cs = gap' ++ rest' → Gap rest' gap' →
    Gap rest' (gap ++ gap')) (h : Laid (before ++ gap) cs ts) : Laid before (gap ++ cs) ts := by
  cases h with
  | done hg => exact .done (hadd _ [] (List.append_nil _).symm hg)
  | @token _ gap' text rest kind ts hg hs h =>
      rw [List.append_assoc before gap gap'] at hs h ⊢
      rw [← List.append_assoc gap gap']
      exact .token (hadd gap' (text ++ rest) rfl hg) hs h

/-- A token without a gap in front of it. -/
theorem next (hs : Shaped before kind text rest) (h : Laid (before ++ text) rest ts) :
    Laid before (text ++ rest)
      (⟨kind, String.ofList text, byteSize before, byteSize (before ++ text)⟩ :: ts) := by
  have hnil : before ++ [] = before := List.append_nil before
  have htoken : Laid before ([] ++ (text ++ rest)) _ :=
    .token .nil (by rwa [hnil]) (by rwa [hnil] : Laid (before ++ [] ++ text) rest ts)
  rwa [hnil] at htoken

end Laid

theorem gap_blanks {gs gap : List Char} (hgs : ∀ c ∈ gs, isGap c = true) (h : Gap rest gap) :
    Gap rest (gs ++ gap) := by
  induction gs with
  | nil => exact h
  | cons c gs ih =>
      obtain ⟨hc, hgs⟩ := List.forall_mem_cons.mp hgs
      exact .blank hc (ih hgs)

/-- No atom of what is done goes on. -/
def Fresh (before cs : List Char) : Prop :=
  (∀ c ∈ before.getLast?, isAtomic c = false) ∨ Stops cs

theorem Fresh.of_last {c : Char} (hc : isAtomic c = false) (before cs : List Char) :
    Fresh (before ++ [c]) cs := by
  left
  intro d hd
  rw [List.getLast?_concat] at hd
  exact Option.some.inj hd ▸ hc

/-- **No piece ends in the middle of an atom.** -/
theorem Cut.fresh {p : Piece} (h : Cut p rest) (before : List Char) :
    Fresh (before ++ p.chars) rest := by
  cases h with
  | @blanks gs _ hne hgs =>
      left
      intro c hc
      rw [List.getLast?_append, List.getLast?_eq_some_getLast hne, Option.some_or] at hc
      have hgap := hgs c (Option.some.inj hc ▸ List.getLast_mem hne)
      unfold isAtomic
      rw [hgap]
      rfl
  | comment _ hrest =>
      right
      intro c hc
      rw [hrest c hc]
      rfl
  | leftParen => exact .of_last rfl before rest
  | rightParen => exact .of_last rfl before rest
  | atom _ _ hrest => exact Or.inr hrest
  | @string body _ _ =>
      rw [← List.cons_append, ← List.append_assoc]
      exact .of_last rfl _ rest
  | unclosed => exact Or.inr stops_nil

/-- **A piece in front of what is laid out** is a gap or the next token. -/
theorem Laid.piece {p : Piece} {ps : List Piece} (hcut : Cut p rest)
    (hfresh : Fresh before (p.chars ++ rest))
    (h : Laid (before ++ p.chars) rest (place (byteSize (before ++ p.chars)) ps)) :
    Laid before (p.chars ++ rest) (place (byteSize before) (p :: ps)) := by
  have hplace : ∀ kind, place (byteSize before) (⟨some kind, p.chars⟩ :: ps) =
      ⟨kind, String.ofList p.chars, byteSize before, byteSize (before ++ p.chars)⟩
        :: place (byteSize (before ++ p.chars)) ps := by
    intro kind
    rw [place, byteSize_append]
  cases hcut with
  | blanks _ hgs =>
      rw [place, ← byteSize_append]
      exact h.gap fun _ _ _ hg => gap_blanks hgs hg
  | comment hbody hrest =>
      rw [place, ← byteSize_append]
      refine h.gap fun gap' rest' happ hg => ?_
      exact .comment hbody (happ ▸ hrest) hg
  | leftParen => rw [hplace]; exact h.next .leftParen
  | rightParen => rw [hplace]; exact h.next .rightParen
  | string hbody => rw [hplace]; exact h.next (.string hbody)
  | unclosed hbody => rw [hplace]; exact h.next (.unclosed hbody)
  | @atom as _ hne has hrest =>
      rw [hplace]
      refine h.next (.atom hne has ?_ hrest)
      rcases hfresh with hlast | hstops
      · exact hlast
      · obtain ⟨c, as, rfl⟩ := List.exists_cons_of_ne_nil hne
        have hc := hstops c rfl
        exact absurd (hc.symm.trans (has c List.mem_cons_self)) (by simp)

theorem laid_pieces (cs : List Char) :
    ∀ before, Fresh before cs → Laid before cs (place (byteSize before) (pieces cs)) := by
  induction cs using pieces.induct with
  | case1 =>
      intro before _
      rw [pieces]
      exact .done .nil
  | case2 c cs _ ih =>
      intro before hfresh
      have hcut := cut_firstPiece c cs
      rw [pieces]
      rw [← chars_firstPiece_append c cs] at hfresh ⊢
      exact .piece hcut hfresh (ih _ (hcut.fresh before))

/--
**Nothing is lost in scanning.**

The tokens of any source text stand in order, none empty and none in another; each has the text of
the place that it names. Before, between and behind them the text is made of blanks and of comments.
Parentheses stand alone; an atom goes as far to both sides as there are characters for it; a string
begins and ends with a quote and has none within; and a quote that is never closed makes the last
token, with all the text behind it.
-/
theorem scan_lossless (source : String) : Lossless source.toList (scan source) :=
  (laid_pieces source.toList [] (Or.inl (by simp))).lossless

/-- A quote in a comment opens nothing, and a semicolon in a string starts no comment. -/
example : scan "; \"\nα\"b;\n\"(\"" =
    [⟨.atom, "α", 4, 6⟩, ⟨.string, "\"b;\n\"", 6, 11⟩, ⟨.leftParen, "(", 11, 12⟩,
      ⟨.unclosed, "\"", 12, 13⟩] := by cbv

end RegisterMachine.Token
