import RegisterMachine.Proofs.Image

/-!
# Images that are cut short

Nothing in an image says where it ends, and there is no sum over its bytes. That a cut is noticed all
the same is a property of the format: no part of a description is written in bytes that begin another
way of writing it, so a decoder that was promised a part and finds less has to run out of bytes.

`Needs` says this of one decoder and one value, and it goes through sequences whatever the place of
the cut: within the first part, within the second, or exactly between the two. It does not ask how
deep expressions may nest, since a decoder that is not allowed to go deeper reports the same as one
that has no bytes left.
-/

namespace RegisterMachine.Image

namespace Decoder

variable {α β : Type}

/-- The bytes came to their end too early, within a number or within a text. -/
def Starved (r : Except PayloadError (α × Bytes)) : Prop :=
  r = .error .endOfBytes ∨ r = .error .endOfText

/-- A decoder for which `bytes` are the value `a`: it reads `a` from them, whatever stands behind, or
runs out of bytes; and from any less of them it runs out of bytes. -/
structure Needs (p : Decoder α) (a : α) (bytes : Bytes) : Prop where
  whole : ∀ rest, p (bytes ++ rest) = .ok (a, rest) ∨ Starved (p (bytes ++ rest))
  cut : ∀ part, part <+: bytes → part ≠ bytes → Starved (p part)

/-! ## One part after the other -/

theorem bind_of_ok {p : Decoder α} {f : α → Decoder β} {bs rest : Bytes} {a : α}
    (h : p bs = .ok (a, rest)) : (p >>= f) bs = f a rest := by
  show Decoder.bind p f bs = f a rest
  unfold Decoder.bind
  rw [h]

theorem Starved.bind {p : Decoder α} {bs : Bytes} (h : Starved (p bs)) (f : α → Decoder β) :
    Starved ((p >>= f) bs) := by
  show Starved (Decoder.bind p f bs)
  unfold Decoder.bind
  rcases h with h | h
  · rw [h]; exact Or.inl rfl
  · rw [h]; exact Or.inr rfl

/-- The beginning of two parts is the beginning of the first, or all of it with the beginning of the
second. -/
theorem prefix_append_cases {part front back : Bytes} (h : part <+: front ++ back) :
    (part <+: front ∧ part ≠ front) ∨ ∃ rest, part = front ++ rest ∧ rest <+: back := by
  by_cases hne : part = front
  · exact Or.inr ⟨[], by simp [hne], List.nil_prefix⟩
  · rcases List.prefix_or_prefix_of_prefix h (List.prefix_append front back) with hp | hp
    · exact Or.inl ⟨hp, hne⟩
    · obtain ⟨rest, rfl⟩ := hp
      exact Or.inr ⟨rest, rfl, (List.prefix_append_right_inj front).mp h⟩

/-- **Stage by stage.** -/
theorem Needs.bind {p : Decoder α} {f : α → Decoder β} {a : α} {b : β} {front back : Bytes}
    (hp : Needs p a front) (hf : Needs (f a) b back) : Needs (p >>= f) b (front ++ back) where
  whole rest := by
    rw [List.append_assoc]
    rcases hp.whole (back ++ rest) with h | h
    · rw [bind_of_ok h]
      exact hf.whole rest
    · exact Or.inr (h.bind f)
  cut part hpart hne := by
    rcases prefix_append_cases hpart with ⟨hfront, hless⟩ | ⟨rest, heq, hrest⟩
    · exact (hp.cut part hfront hless).bind f
    -- a cut behind the first part leaves too little of the second
    · have hless : rest ≠ back := by
        intro he
        rw [heq, he] at hne
        exact hne rfl
      rw [heq]
      rcases hp.whole rest with h | h
      · rw [bind_of_ok h]
        exact hf.cut rest hrest hless
      · exact h.bind f

theorem needs_pure (a : α) : Needs (pure a : Decoder α) a [] where
  whole _ := Or.inl rfl
  cut _ hpart hne := absurd (List.prefix_nil.mp hpart) hne

/-- A last part, of which the answer is made. -/
theorem Needs.last {p : Decoder α} {f : α → Decoder β} {a : α} {b : β} {bytes : Bytes}
    (hp : Needs p a bytes) (hf : f a = pure b) : Needs (p >>= f) b bytes := by
  have hb : Needs (f a) b [] := by rw [hf]; exact needs_pure b
  have h : Needs (p >>= f) b (bytes ++ []) := hp.bind hb
  rw [List.append_nil] at h
  exact h

theorem Needs.map {p : Decoder α} {a : α} {bytes : Bytes} (hp : Needs p a bytes) (g : α → β) :
    Needs (p >>= fun x => pure (g x)) (g a) bytes := hp.last rfl

/-- A decoder that has nothing to decide needs all of its bytes. -/
theorem Needs.of_reads {p : Decoder α} {ok : α → Prop} {enc : α → Bytes} {a : α}
    (hr : Reads p ok enc) (ha : ok a)
    (hcut : ∀ part, part <+: enc a → part ≠ enc a → Starved (p part)) : Needs p a (enc a) where
  whole _ := Or.inl (hr.mpr ⟨ha, rfl⟩)
  cut := hcut

/-! ## Numbers and texts -/

theorem starved_word {width n : Nat} {part : Bytes} (hp : part <+: Image.word width n)
    (hne : part ≠ Image.word width n) : Starved (word width part) := by
  induction width generalizing n part with
  | zero => exact absurd (List.prefix_nil.mp hp) hne
  | succ width ih =>
      cases part with
      | nil => exact Or.inl rfl
      | cons b part =>
          rw [Image.word] at hp hne
          obtain ⟨rfl, htail⟩ := List.cons_prefix_cons.mp hp
          have hless : part ≠ Image.word width (n / 256) := fun he => hne (he ▸ rfl)
          exact (ih htail hless).bind fun high => pure ((UInt8.ofNat n).toNat + 256 * high)

theorem needs_word {width n : Nat} (hn : n < 256 ^ width) :
    Needs (word width) n (Image.word width n) :=
  .of_reads (reads_word width) hn fun _ => starved_word

theorem needs_length {n : Nat} (hn : fitsWord n = true) : Needs length n (Image.length n) :=
  needs_word (fitsWord_iff.mp hn)

theorem needs_variant {count : Nat} (h : count ≤ 256 ^ 4) (i : Fin count) :
    Needs (variant count) i (Image.variant i) := by
  have hlt : i.val < 256 ^ 4 := Nat.lt_of_lt_of_le i.isLt h
  exact .of_reads (reads_variant h) trivial fun _ hp hne => (starved_word hp hne).bind _

theorem needs_bool (b : Bool) : Needs bool b [if b then 1 else 0] where
  whole _ := Or.inl (reads_bool.mpr ⟨trivial, rfl⟩)
  cut part hp hne := by
    -- less than one byte is none
    cases part with
    | nil => exact Or.inl rfl
    | cons c part =>
        obtain ⟨rfl, htail⟩ := List.cons_prefix_cons.mp hp
        rw [List.prefix_nil.mp htail] at hne
        exact absurd rfl hne

theorem needs_take (bytes : Bytes) : Needs (take bytes.length) bytes bytes where
  whole rest := Or.inl (take_eq_ok.mpr ⟨rfl, rfl⟩)
  cut part hp hne := by
    have hlt : part.length < bytes.length := by
      rcases Nat.lt_or_ge part.length bytes.length with hlt | hge
      · exact hlt
      · exact absurd (hp.eq_of_length (Nat.le_antisymm hp.length_le hge)) hne
    unfold take
    rw [if_neg (by omega)]
    exact Or.inr rfl

theorem needs_text {s : String} (hs : textFits s = true) : Needs text s (Image.text s) := by
  refine (needs_length hs).bind ((needs_take (Utf8.encode s)).last ?_)
  simp only [Utf8.decode_encode]

/-! ## Lists -/

theorem needs_times {p : Decoder α} {enc : α → Bytes} {as : List α}
    (h : ∀ a ∈ as, Needs p a (enc a)) : Needs (times p as.length) as (as.flatMap enc) := by
  induction as with
  | nil => exact needs_pure []
  | cons a as ih =>
      have hall := List.forall_mem_cons.mp h
      exact hall.1.bind ((ih hall.2).map (a :: ·))

/-- **A list needs all of its members**: the number of them is written in front. -/
theorem needs_list {p : Decoder α} {enc : α → Bytes} {as : List α}
    (hn : fitsWord as.length = true) (h : ∀ a ∈ as, Needs p a (enc a)) :
    Needs (list p) as (Image.list enc as) :=
  (needs_length hn).bind (needs_times h)

/-! ## The parts of a description -/

theorem needs_value {v : Value} (hv : valueFits v = true) : Needs value v (Image.value v) := by
  have hi (i : Fin 5) : Needs (variant 5) i (Image.variant i) := needs_variant (by decide) i
  cases v with
  | unassigned => exact (hi 0).bind (needs_pure Value.unassigned)
  | number n =>
      have hn : n.bits.toNat < 256 ^ 8 := n.bits.toNat_lt
      have hbits : UInt64.ofNat n.bits.toNat = n.bits := UInt64.ofNat_toNat
      have h : Needs value (.number ⟨UInt64.ofNat n.bits.toNat⟩) (Image.value (.number n)) :=
        (hi 1).bind ((needs_word hn).map fun k => Value.number ⟨UInt64.ofNat k⟩)
      rw [hbits] at h
      exact h
  | bool b => exact (hi 2).bind ((needs_bool b).map Value.bool)
  | symbol s => exact (hi 3).bind ((needs_text hv).map Value.symbol)
  | position k => exact (hi 4).bind ((needs_length hv).map Value.position)

theorem needs_exprWithin {e : Expr} (he : exprFits e = true) (depth : Nat) :
    Needs (exprWithin depth) e (Image.expr e) := by
  induction depth generalizing e with
  | zero => exact ⟨fun _ => Or.inr (Or.inl rfl), fun _ _ _ => Or.inl rfl⟩
  | succ depth ih =>
      have hi (i : Fin 4) : Needs (variant 4) i (Image.variant i) := needs_variant (by decide) i
      cases e with
      | const v => exact (hi 0).bind ((needs_value he).map Expr.const)
      | reg name => exact (hi 1).bind ((needs_text he).map Expr.reg)
      | label name => exact (hi 2).bind ((needs_text he).map Expr.label)
      | op name xs =>
          rw [exprFits, Bool.and_eq_true, Bool.and_eq_true] at he
          obtain ⟨⟨hname, hlen⟩, hxs⟩ := he
          have hlist : Needs (list (exprWithin depth)) xs (Image.list Image.expr xs) :=
            needs_list hlen fun x hx => ih (exprsFit_iff.mp hxs x hx)
          rw [Image.expr, exprs_eq_flatMap]
          exact (hi 3).bind ((needs_text hname).bind (hlist.map (Expr.op name)))

/-- **An expression needs all of its bytes**, at whatever depth it is cut. -/
theorem needs_expr {e : Expr} (he : exprFits e = true) : Needs expr e (Image.expr e) :=
  .of_reads reads_expr he fun part => (needs_exprWithin he (part.length + 1)).cut part

theorem needs_instruction {i : Instruction} (h : instructionFits i = true) :
    Needs instruction i (Image.instruction i) := by
  have hi (k : Fin 7) : Needs (variant 7) k (Image.variant k) := needs_variant (by decide) k
  cases i with
  | assign r e =>
      have hfit := Bool.and_eq_true_iff.mp h
      have he := (needs_expr hfit.2).map (Instruction.assign r)
      exact (hi 0).bind ((needs_text hfit.1).bind he)
  | test e => exact (hi 1).bind ((needs_expr h).map Instruction.test)
  | branch e => exact (hi 2).bind ((needs_expr h).map Instruction.branch)
  | goto e => exact (hi 3).bind ((needs_expr h).map Instruction.goto)
  | save r => exact (hi 4).bind ((needs_text h).map Instruction.save)
  | restore r => exact (hi 5).bind ((needs_text h).map Instruction.restore)
  | perform e => exact (hi 6).bind ((needs_expr h).map Instruction.perform)

theorem needs_item {x : Item} (h : itemFits x = true) : Needs item x (Image.item x) := by
  have hi (k : Fin 2) : Needs (variant 2) k (Image.variant k) := needs_variant (by decide) k
  cases x with
  | label name => exact (hi 0).bind ((needs_text h).map Item.label)
  | instruction i => exact (hi 1).bind ((needs_instruction h).map Item.instruction)

theorem needs_payload {d : Description} (h : fits d = true) :
    Needs payload d (Image.payload d) := by
  simp only [fits, Bool.and_eq_true, List.all_eq_true] at h
  obtain ⟨⟨hr, hrs⟩, hx, hxs⟩ := h
  have hregisters : Needs (list text) d.registers (Image.list Image.text d.registers) :=
    needs_list hr fun r hmem => needs_text (hrs r hmem)
  have hitems : Needs (list item) d.controller (Image.list Image.item d.controller) :=
    needs_list hx fun x hmem => needs_item (hxs x hmem)
  exact hregisters.bind (hitems.map fun items => Description.mk d.registers items)

end Decoder

/-! ## Whole images -/

theorem isPrefixOf_eq_false {front bs : Bytes} (h : bs.length < front.length) :
    front.isPrefixOf bs = false := by
  cases hp : front.isPrefixOf bs with
  | false => rfl
  | true =>
      have hle := (List.isPrefixOf_iff_prefix.mp hp).length_le
      omega

theorem declaration_prefix_header : declaration <+: header := List.prefix_append _ _

theorem decode_header_append (bs : Bytes) :
    decode (header ++ bs) = match Decoder.payload bs with
      | .ok (d, _) => .ok d
      | .error e => .error (.payload e) := by
  have hheader : header.isPrefixOf (header ++ bs) = true :=
    List.isPrefixOf_iff_prefix.mpr (List.prefix_append _ _)
  have hdecl : declaration.isPrefixOf (header ++ bs) = true :=
    List.isPrefixOf_iff_prefix.mpr (declaration_prefix_header.trans (List.prefix_append _ _))
  unfold decode
  rw [hdecl, hheader, List.drop_left]
  rfl

/--
**Every cut is noticed.** What is left of an image when its end is missing is never read as a
description, be it the same or another. Without all of the declaration it is no image, without all of
the header it is one of another version, and wherever else the cut falls the bytes end too early,
within a number or within a text.
-/
theorem decode_cut {d : Description} {image cut : Bytes} (h : encode d = .ok image)
    (hcut : cut <+: image) (hne : cut ≠ image) :
    (cut.length < declaration.length → decode cut = .error .noDeclaration)
      ∧ (declaration.length ≤ cut.length → cut.length < header.length →
          decode cut = .error .otherVersion)
      ∧ (header.length ≤ cut.length →
          decode cut = .error (.payload .endOfBytes)
            ∨ decode cut = .error (.payload .endOfText)) := by
  obtain ⟨hfit, rfl⟩ := encode_eq_ok.mp h
  refine ⟨?_, ?_, ?_⟩
  · intro hlt
    unfold decode
    rw [isPrefixOf_eq_false hlt]
    rfl
  · intro hle hlt
    have himage : declaration <+: header ++ payload d :=
      declaration_prefix_header.trans (List.prefix_append _ _)
    have hdecl : declaration.isPrefixOf cut = true :=
      List.isPrefixOf_iff_prefix.mpr (List.prefix_of_prefix_length_le himage hcut hle)
    unfold decode
    rw [hdecl, isPrefixOf_eq_false hlt]
    rfl
  · intro hle
    have hheader : header <+: cut :=
      List.prefix_of_prefix_length_le (List.prefix_append _ _) hcut hle
    obtain ⟨body, rfl⟩ := hheader
    have hbody : body <+: payload d := (List.prefix_append_right_inj header).mp hcut
    have hless : body ≠ payload d := fun he => hne (he ▸ rfl)
    rw [decode_header_append]
    rcases (Decoder.needs_payload hfit).cut body hbody hless with hs | hs
    · rw [hs]; exact Or.inl rfl
    · rw [hs]; exact Or.inr rfl

/-- The bytes of a small image: a register, and one instruction with two inputs. -/
def shortImage : Bytes :=
  [
    82, 69, 71, 77, 65, 67, 72, 73, 77, 65, 71, 69, 10, 48, 46, 49, 46, 48, 10, 1, 0, 0, 0, 0,
    0, 0, 0, 1, 0, 0, 0, 0, 0, 0, 0, 110, 1, 0, 0, 0, 0, 0, 0, 0, 1, 0, 0, 0, 1, 0, 0, 0, 3, 0, 0,
    0, 1, 0, 0, 0, 0, 0, 0, 0, 61, 2, 0, 0, 0, 0, 0, 0, 0, 1, 0, 0, 0, 1, 0, 0, 0, 0, 0, 0, 0, 110,
    0, 0, 0, 0, 2, 0, 0, 0, 1]

theorem decode_cut_shortImage :
    encode ⟨["n"], [.instruction (.test (.op "=" [.reg "n", .const (.bool true)]))]⟩
        = .ok shortImage
      ∧ decode (shortImage.take 12) = .error .noDeclaration
      ∧ decode (shortImage.take 18) = .error .otherVersion
      ∧ ∀ n, 19 ≤ n → n < shortImage.length →
          decode (shortImage.take n) = .error (.payload .endOfBytes)
            ∨ decode (shortImage.take n) = .error (.payload .endOfText) := by
  have h : encode ⟨["n"], [.instruction (.test (.op "=" [.reg "n", .const (.bool true)]))]⟩
      = .ok shortImage := by
    cbv
  have hheader : header.length = 19 := by decide
  have hdecl : declaration.length = 13 := by decide
  have hne : ∀ n, n < shortImage.length → shortImage.take n ≠ shortImage := by
    intro n hn he
    have hlen := congrArg List.length he
    rw [List.length_take] at hlen
    omega
  refine ⟨h, ?_, ?_, ?_⟩
  · exact (decode_cut h (List.take_prefix 12 _) (hne 12 (by decide))).1 (by decide)
  · exact (decode_cut h (List.take_prefix 18 _) (hne 18 (by decide))).2.1 (by decide) (by decide)
  · intro n hle hlt
    refine (decode_cut h (List.take_prefix n _) (hne n hlt)).2.2 ?_
    rw [List.length_take, hheader]
    omega

end RegisterMachine.Image
