import RegisterMachine.Proofs.Codec

/-!
# Images and the descriptions in them

An image holds one description and a description has one image. Both follow from one equivalence,
`decode_eq_ok_iff`: bytes are read as a description exactly if they begin with the image that is
written for it. It is built up from the parts of a description, each of them read exactly as it is
written (`Reads`), with one case for each alternative of the format and one for each constructor of
the data.

Expressions nest, and their decoder goes down to a depth that it is given. A level takes bytes of
its own, so the number of bytes is depth enough.

The format holds lengths and positions below `2 ^ 64`, and nothing else can keep a description from
being written. Doubles are kept bit by bit, those that are no numbers included.
-/

namespace RegisterMachine

/-! ## Depth -/

mutual

/-- How deep the operations in an expression are nested. -/
def Expr.depth : Expr → Nat
  | .const _ | .reg _ | .label _ => 1
  | .op _ xs => Expr.inputsDepth xs + 1

def Expr.inputsDepth : List Expr → Nat
  | [] => 0
  | x :: xs => max x.depth (Expr.inputsDepth xs)

end

theorem Expr.inputsDepth_le {xs : List Expr} {n : Nat} :
    inputsDepth xs ≤ n ↔ ∀ x ∈ xs, x.depth ≤ n := by
  induction xs with
  | nil => simp [inputsDepth]
  | cons x xs ih => rw [inputsDepth, Nat.max_le, ih, List.forall_mem_cons]

namespace Image

theorem length_word (width n : Nat) : (word width n).length = width := by
  induction width generalizing n with
  | zero => rfl
  | succ width ih => rw [word, List.length_cons, ih]

theorem exprs_eq_flatMap (xs : List Expr) : exprs xs = xs.flatMap expr := by
  induction xs with
  | nil => rfl
  | cons x xs ih => rw [exprs, ih, List.flatMap_cons]

theorem exprsFit_iff {xs : List Expr} : exprsFit xs = true ↔ ∀ x ∈ xs, exprFits x = true := by
  induction xs with
  | nil => simp [exprsFit]
  | cons x xs ih => rw [exprsFit, Bool.and_eq_true, ih, List.forall_mem_cons]

mutual

/-- Every level of an expression is written in bytes of its own. -/
theorem depth_le_length : ∀ e : Expr, e.depth ≤ (expr e).length
  | .const v => by
      rw [Expr.depth, expr, List.length_append, variant, length_word]
      omega
  | .reg name => by
      rw [Expr.depth, expr, List.length_append, variant, length_word]
      omega
  | .label name => by
      rw [Expr.depth, expr, List.length_append, variant, length_word]
      omega
  | .op name xs => by
      have hxs := inputsDepth_le_length xs
      rw [Expr.depth, expr, List.length_append, List.length_append, List.length_append, variant,
        length_word]
      omega

theorem inputsDepth_le_length : ∀ xs : List Expr, Expr.inputsDepth xs ≤ (exprs xs).length
  | [] => Nat.le_refl 0
  | x :: xs => by
      have hx := depth_le_length x
      have hxs := inputsDepth_le_length xs
      rw [Expr.inputsDepth, exprs, List.length_append]
      omega

end

namespace Decoder

/-! ## The parts of a description -/

theorem reads_value : Reads value (valueFits · = true) Image.value := by
  intro bs v rest
  rw [value, (reads_variant (by decide)).bind_eq_ok]
  refine ⟨?_, ?_⟩
  · rintro ⟨i, mid, _, rfl, h⟩
    match i, h with
    | 0, h =>
        obtain ⟨rfl, rfl⟩ := pure_eq_ok.mp h
        exact ⟨rfl, rfl⟩
    | 1, h =>
        obtain ⟨n, hn, rfl, rfl⟩ := (reads_word 8).map_eq_ok.mp h
        have hbits : (UInt64.ofNat n).toNat = n := UInt64.toNat_ofNat_of_lt' hn
        refine ⟨rfl, ?_⟩
        rw [Image.value, hbits, List.append_assoc]
        rfl
    | 2, h =>
        obtain ⟨b, _, rfl, rfl⟩ := reads_bool.map_eq_ok.mp h
        exact ⟨rfl, (List.append_assoc _ _ _).symm⟩
    | 3, h =>
        obtain ⟨s, hs, rfl, rfl⟩ := reads_text.map_eq_ok.mp h
        exact ⟨hs, (List.append_assoc _ _ _).symm⟩
    | 4, h =>
        obtain ⟨k, hk, rfl, rfl⟩ := reads_length.map_eq_ok.mp h
        exact ⟨hk, (List.append_assoc _ _ _).symm⟩
  · rintro ⟨hv, rfl⟩
    cases v with
    | unassigned => exact ⟨0, rest, trivial, rfl, pure_eq_ok.mpr ⟨rfl, rfl⟩⟩
    | number n =>
        have hn : n.bits.toNat < 256 ^ 8 := n.bits.toNat_lt
        have hbits : UInt64.ofNat n.bits.toNat = n.bits := UInt64.ofNat_toNat
        have hg : Value.number ⟨UInt64.ofNat n.bits.toNat⟩ = .number n := by rw [hbits]
        exact ⟨1, _, trivial, List.append_assoc _ _ _,
          (reads_word 8).map_eq_ok.mpr ⟨n.bits.toNat, hn, hg, rfl⟩⟩
    | bool b =>
        exact ⟨2, _, trivial, List.append_assoc _ _ _,
          reads_bool.map_eq_ok.mpr ⟨b, trivial, rfl, rfl⟩⟩
    | symbol s =>
        exact ⟨3, _, trivial, List.append_assoc _ _ _,
          reads_text.map_eq_ok.mpr ⟨s, hv, rfl, rfl⟩⟩
    | position k =>
        exact ⟨4, _, trivial, List.append_assoc _ _ _,
          reads_length.map_eq_ok.mpr ⟨k, hv, rfl, rfl⟩⟩

theorem reads_exprWithin (depth : Nat) :
    Reads (exprWithin depth) (fun e => e.depth ≤ depth ∧ exprFits e = true) Image.expr := by
  induction depth with
  | zero =>
      intro bs e rest
      refine ⟨fun h => absurd h fail_ne_ok, ?_⟩
      rintro ⟨⟨hdepth, _⟩, _⟩
      cases e <;> simp [Expr.depth] at hdepth
  | succ depth ih =>
      intro bs e rest
      rw [exprWithin, (reads_variant (by decide)).bind_eq_ok]
      refine ⟨?_, ?_⟩
      · rintro ⟨i, mid, _, rfl, h⟩
        match i, h with
        | 0, h =>
            obtain ⟨v, hv, rfl, rfl⟩ := reads_value.map_eq_ok.mp h
            exact ⟨⟨by simp [Expr.depth], hv⟩, (List.append_assoc _ _ _).symm⟩
        | 1, h =>
            obtain ⟨name, hname, rfl, rfl⟩ := reads_text.map_eq_ok.mp h
            exact ⟨⟨by simp [Expr.depth], hname⟩, (List.append_assoc _ _ _).symm⟩
        | 2, h =>
            obtain ⟨name, hname, rfl, rfl⟩ := reads_text.map_eq_ok.mp h
            exact ⟨⟨by simp [Expr.depth], hname⟩, (List.append_assoc _ _ _).symm⟩
        | 3, h =>
            obtain ⟨name, xs, hname, ⟨hlen, hxs⟩, rfl, rfl⟩ := (reads_text.map₂_eq_ok ih.list).mp h
            have hdepth : Expr.inputsDepth xs ≤ depth :=
              Expr.inputsDepth_le.mpr fun x hx => (hxs x hx).1
            have hfit : exprsFit xs = true := exprsFit_iff.mpr fun x hx => (hxs x hx).2
            refine ⟨⟨Nat.succ_le_succ hdepth, ?_⟩, ?_⟩
            · rw [exprFits, hname, hlen, hfit]
              rfl
            · rw [Image.expr, exprs_eq_flatMap, Image.list]
              simp only [List.append_assoc]
              rfl
      · rintro ⟨⟨hdepth, hfit⟩, rfl⟩
        cases e with
        | const v =>
            exact ⟨0, _, trivial, List.append_assoc _ _ _,
              reads_value.map_eq_ok.mpr ⟨v, hfit, rfl, rfl⟩⟩
        | reg name =>
            exact ⟨1, _, trivial, List.append_assoc _ _ _,
              reads_text.map_eq_ok.mpr ⟨name, hfit, rfl, rfl⟩⟩
        | label name =>
            exact ⟨2, _, trivial, List.append_assoc _ _ _,
              reads_text.map_eq_ok.mpr ⟨name, hfit, rfl, rfl⟩⟩
        | op name xs =>
            rw [exprFits, Bool.and_eq_true, Bool.and_eq_true] at hfit
            obtain ⟨⟨hname, hlen⟩, hfit⟩ := hfit
            have hxs : ∀ x ∈ xs, x.depth ≤ depth ∧ exprFits x = true := fun x hx =>
              ⟨Expr.inputsDepth_le.mp (Nat.le_of_succ_le_succ hdepth) x hx,
                exprsFit_iff.mp hfit x hx⟩
            refine ⟨3, Image.text name ++ (Image.list Image.expr xs ++ rest), trivial, ?_,
              (reads_text.map₂_eq_ok ih.list).mpr ⟨name, xs, hname, ⟨hlen, hxs⟩, rfl, rfl⟩⟩
            rw [Image.expr, exprs_eq_flatMap, Image.list]
            simp only [List.append_assoc]
            rfl

/-- **An expression is read as it is written**, however deep it nests. -/
theorem reads_expr : Reads expr (exprFits · = true) Image.expr := by
  intro bs e rest
  rw [expr, reads_exprWithin]
  refine ⟨?_, ?_⟩
  · rintro ⟨⟨_, hfit⟩, hbs⟩; exact ⟨hfit, hbs⟩
  · rintro ⟨hfit, rfl⟩
    have hdepth := depth_le_length e
    refine ⟨⟨?_, hfit⟩, rfl⟩
    rw [List.length_append]
    omega

theorem reads_instruction : Reads instruction (instructionFits · = true) Image.instruction := by
  intro bs i rest
  rw [instruction, (reads_variant (by decide)).bind_eq_ok]
  refine ⟨?_, ?_⟩
  · rintro ⟨k, mid, _, rfl, h⟩
    match k, h with
    | 0, h =>
        obtain ⟨r, e, hr, he, rfl, rfl⟩ := (reads_text.map₂_eq_ok reads_expr).mp h
        refine ⟨Bool.and_eq_true_iff.mpr ⟨hr, he⟩, ?_⟩
        simp only [Image.instruction, List.append_assoc]
        rfl
    | 1, h =>
        obtain ⟨e, he, rfl, rfl⟩ := reads_expr.map_eq_ok.mp h
        exact ⟨he, (List.append_assoc _ _ _).symm⟩
    | 2, h =>
        obtain ⟨e, he, rfl, rfl⟩ := reads_expr.map_eq_ok.mp h
        exact ⟨he, (List.append_assoc _ _ _).symm⟩
    | 3, h =>
        obtain ⟨e, he, rfl, rfl⟩ := reads_expr.map_eq_ok.mp h
        exact ⟨he, (List.append_assoc _ _ _).symm⟩
    | 4, h =>
        obtain ⟨r, hr, rfl, rfl⟩ := reads_text.map_eq_ok.mp h
        exact ⟨hr, (List.append_assoc _ _ _).symm⟩
    | 5, h =>
        obtain ⟨r, hr, rfl, rfl⟩ := reads_text.map_eq_ok.mp h
        exact ⟨hr, (List.append_assoc _ _ _).symm⟩
    | 6, h =>
        obtain ⟨e, he, rfl, rfl⟩ := reads_expr.map_eq_ok.mp h
        exact ⟨he, (List.append_assoc _ _ _).symm⟩
  · rintro ⟨hfit, rfl⟩
    cases i with
    | assign r e =>
        obtain ⟨hr, he⟩ := Bool.and_eq_true_iff.mp hfit
        refine ⟨0, Image.text r ++ (Image.expr e ++ rest), trivial, ?_,
          (reads_text.map₂_eq_ok reads_expr).mpr ⟨r, e, hr, he, rfl, rfl⟩⟩
        simp only [Image.instruction, List.append_assoc]
        rfl
    | test e =>
        exact ⟨1, _, trivial, List.append_assoc _ _ _,
          reads_expr.map_eq_ok.mpr ⟨e, hfit, rfl, rfl⟩⟩
    | branch e =>
        exact ⟨2, _, trivial, List.append_assoc _ _ _,
          reads_expr.map_eq_ok.mpr ⟨e, hfit, rfl, rfl⟩⟩
    | goto e =>
        exact ⟨3, _, trivial, List.append_assoc _ _ _,
          reads_expr.map_eq_ok.mpr ⟨e, hfit, rfl, rfl⟩⟩
    | save r =>
        exact ⟨4, _, trivial, List.append_assoc _ _ _,
          reads_text.map_eq_ok.mpr ⟨r, hfit, rfl, rfl⟩⟩
    | restore r =>
        exact ⟨5, _, trivial, List.append_assoc _ _ _,
          reads_text.map_eq_ok.mpr ⟨r, hfit, rfl, rfl⟩⟩
    | perform e =>
        exact ⟨6, _, trivial, List.append_assoc _ _ _,
          reads_expr.map_eq_ok.mpr ⟨e, hfit, rfl, rfl⟩⟩

theorem reads_item : Reads item (itemFits · = true) Image.item := by
  intro bs x rest
  rw [item, (reads_variant (by decide)).bind_eq_ok]
  refine ⟨?_, ?_⟩
  · rintro ⟨k, mid, _, rfl, h⟩
    match k, h with
    | 0, h =>
        obtain ⟨name, hname, rfl, rfl⟩ := reads_text.map_eq_ok.mp h
        exact ⟨hname, (List.append_assoc _ _ _).symm⟩
    | 1, h =>
        obtain ⟨i, hi, rfl, rfl⟩ := reads_instruction.map_eq_ok.mp h
        exact ⟨hi, (List.append_assoc _ _ _).symm⟩
  · rintro ⟨hfit, rfl⟩
    cases x with
    | label name =>
        exact ⟨0, _, trivial, List.append_assoc _ _ _,
          reads_text.map_eq_ok.mpr ⟨name, hfit, rfl, rfl⟩⟩
    | instruction i =>
        exact ⟨1, _, trivial, List.append_assoc _ _ _,
          reads_instruction.map_eq_ok.mpr ⟨i, hfit, rfl, rfl⟩⟩

theorem reads_payload : Reads payload (fits · = true) Image.payload := by
  intro bs d rest
  have hfits : fits d = true ↔
      (fitsWord d.registers.length = true ∧ ∀ r ∈ d.registers, textFits r = true) ∧
        fitsWord d.controller.length = true ∧ ∀ x ∈ d.controller, itemFits x = true := by
    simp [fits]
  refine Iff.trans ?_ (and_congr_left' hfits.symm)
  rw [payload, reads_text.list.map₂_eq_ok reads_item.list, Image.payload, List.append_assoc]
  refine ⟨?_, ?_⟩
  · rintro ⟨rs, xs, hrs, hxs, rfl, hbs⟩; exact ⟨⟨hrs, hxs⟩, hbs⟩
  · rintro ⟨⟨hrs, hxs⟩, hbs⟩; exact ⟨d.registers, d.controller, hrs, hxs, rfl, hbs⟩

end Decoder

/-! ## Whole images -/

theorem encode_eq_ok {d : Description} {image : Bytes} :
    encode d = .ok image ↔ fits d = true ∧ image = header ++ payload d := by
  unfold encode
  by_cases h : fits d = true
  · simp [h, eq_comm]
  · simp [h]

/-- **Bytes are read as a description exactly if they begin with its image.** -/
theorem decode_eq_ok_iff {bs : Bytes} {d : Description} :
    decode bs = .ok d ↔ ∃ image, encode d = .ok image ∧ image <+: bs := by
  refine ⟨?_, ?_⟩
  · intro h
    unfold decode at h
    split at h
    · exact absurd h (by simp)
    · split at h
      · exact absurd h (by simp)
      · next hheader =>
        rw [Bool.not_eq_true, Bool.not_eq_false', List.isPrefixOf_iff_prefix] at hheader
        obtain ⟨body, rfl⟩ := hheader
        rw [List.drop_left] at h
        split at h
        · next d' rest hbody =>
          obtain rfl := Except.ok.inj h
          obtain ⟨hfit, rfl⟩ := Decoder.reads_payload.mp hbody
          exact ⟨_, encode_eq_ok.mpr ⟨hfit, rfl⟩, rest, List.append_assoc _ _ _⟩
        · exact absurd h (by simp)
  · rintro ⟨image, himage, rest, rfl⟩
    obtain ⟨hfit, rfl⟩ := encode_eq_ok.mp himage
    have hheader : header.isPrefixOf (header ++ payload d ++ rest) = true :=
      List.isPrefixOf_iff_prefix.mpr ⟨payload d ++ rest, (List.append_assoc _ _ _).symm⟩
    have hdecl : declaration.isPrefixOf (header ++ payload d ++ rest) = true :=
      List.isPrefixOf_iff_prefix.mpr ((List.prefix_append _ _).trans
        (List.isPrefixOf_iff_prefix.mp hheader))
    have hbody : Decoder.payload (payload d ++ rest) = .ok (d, rest) :=
      Decoder.reads_payload.mpr ⟨hfit, rfl⟩
    unfold decode
    rw [hdecl, hheader, List.append_assoc, List.drop_left, hbody]
    rfl

end Image
end RegisterMachine
