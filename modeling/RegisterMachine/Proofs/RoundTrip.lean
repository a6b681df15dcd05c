import RegisterMachine.Proofs.Image

/-!
# Images there and back

Two promises of the image format, both read off `decode_eq_ok_iff`. A description that was written
is read again, whatever stands behind its image. And the image that is read is the only one of its
description: the bytes in front of it could not be others, so a change to any of them is noticed or
changes the description.

A description is written unless a length or a position in it is too great for eight bytes. `sizes`
lists all of them, for a description that is held in memory they are words of 64 bits.
-/

namespace RegisterMachine

/-! ## Lengths and positions -/

/-- The bytes that a text takes. -/
def textSize (s : String) : Nat := (Utf8.encode s).length

def Value.sizes : Value → List Nat
  | .symbol s => [textSize s]
  | .position k => [k]
  | .unassigned | .number _ | .bool _ => []

mutual

def Expr.sizes : Expr → List Nat
  | .const v => v.sizes
  | .reg name | .label name => [textSize name]
  | .op name xs => textSize name :: xs.length :: Expr.inputsSizes xs

def Expr.inputsSizes : List Expr → List Nat
  | [] => []
  | x :: xs => x.sizes ++ Expr.inputsSizes xs

end

def Instruction.sizes : Instruction → List Nat
  | .assign r e => textSize r :: e.sizes
  | .test e | .branch e | .goto e | .perform e => e.sizes
  | .save r | .restore r => [textSize r]

def Item.sizes : Item → List Nat
  | .label name => [textSize name]
  | .instruction i => i.sizes

/-- Every length and every position in a description. -/
def Description.sizes (d : Description) : List Nat :=
  d.registers.length :: d.registers.map textSize ++
    d.controller.length :: d.controller.flatMap Item.sizes

namespace Image

theorem fitsWord_iff_lt {n : Nat} : fitsWord n = true ↔ n < 2 ^ 64 := by
  have hpow : 2 ^ 64 = 256 ^ 8 := by decide
  rw [Decoder.fitsWord_iff, hpow]

theorem textFits_iff {s : String} : textFits s = true ↔ textSize s < 2 ^ 64 := fitsWord_iff_lt

theorem valueFits_iff {v : Value} : valueFits v = true ↔ ∀ n ∈ v.sizes, n < 2 ^ 64 := by
  cases v with
  | symbol s => rw [valueFits, textFits_iff, Value.sizes, List.forall_mem_singleton]
  | position k => rw [valueFits, fitsWord_iff_lt, Value.sizes, List.forall_mem_singleton]
  | unassigned | number n | bool b => simp [valueFits, Value.sizes]

mutual

theorem exprFits_iff : ∀ e : Expr, exprFits e = true ↔ ∀ n ∈ e.sizes, n < 2 ^ 64
  | .const v => by rw [exprFits, valueFits_iff, Expr.sizes]
  | .reg name => by rw [exprFits, textFits_iff, Expr.sizes, List.forall_mem_singleton]
  | .label name => by rw [exprFits, textFits_iff, Expr.sizes, List.forall_mem_singleton]
  | .op name xs => by
      rw [exprFits, Bool.and_eq_true, Bool.and_eq_true, textFits_iff, fitsWord_iff_lt,
        exprsFit_iff_sizes xs, Expr.sizes, List.forall_mem_cons, List.forall_mem_cons, and_assoc]

theorem exprsFit_iff_sizes : ∀ xs : List Expr,
    exprsFit xs = true ↔ ∀ n ∈ Expr.inputsSizes xs, n < 2 ^ 64
  | [] => by simp [exprsFit, Expr.inputsSizes]
  | x :: xs => by
      rw [exprsFit, Bool.and_eq_true, exprFits_iff x, exprsFit_iff_sizes xs, Expr.inputsSizes,
        List.forall_mem_append]

end

theorem instructionFits_iff {i : Instruction} :
    instructionFits i = true ↔ ∀ n ∈ i.sizes, n < 2 ^ 64 := by
  cases i with
  | assign r e =>
      rw [instructionFits, Bool.and_eq_true, textFits_iff, exprFits_iff, Instruction.sizes,
        List.forall_mem_cons]
  | test e | branch e | goto e | perform e => exact exprFits_iff e
  | save r | restore r =>
      rw [instructionFits, textFits_iff, Instruction.sizes, List.forall_mem_singleton]

theorem itemFits_iff {x : Item} : itemFits x = true ↔ ∀ n ∈ x.sizes, n < 2 ^ 64 := by
  cases x with
  | label name => rw [itemFits, textFits_iff, Item.sizes, List.forall_mem_singleton]
  | instruction i => exact instructionFits_iff

/-- **Only a length or a position can keep a description from being written.** -/
theorem fits_iff {d : Description} : fits d = true ↔ ∀ n ∈ d.sizes, n < 2 ^ 64 := by
  have hregisters : d.registers.all textFits = true ↔
      ∀ n ∈ d.registers.map textSize, n < 2 ^ 64 := by
    rw [List.all_eq_true, List.forall_mem_map]
    exact forall₂_congr fun r _ => textFits_iff
  have hitems : d.controller.all itemFits = true ↔
      ∀ n ∈ d.controller.flatMap Item.sizes, n < 2 ^ 64 := by
    rw [List.all_eq_true, List.forall_mem_flatMap]
    exact forall₂_congr fun x _ => itemFits_iff
  rw [fits, Bool.and_eq_true, Bool.and_eq_true, Bool.and_eq_true, fitsWord_iff_lt, fitsWord_iff_lt,
    hregisters, hitems, Description.sizes, List.forall_mem_append, List.forall_mem_cons,
    List.forall_mem_cons]

/-! ## There and back -/

/-- **Decoding undoes encoding.** A description whose lengths and positions are words of 64 bits has
an image, and whatever bytes follow the image, the same description is read from them. Numbers are
the same bit by bit. -/
theorem decode_encode_append {d : Description} (h : ∀ n ∈ d.sizes, n < 2 ^ 64) :
    ∃ image, encode d = .ok image ∧ ∀ after : Bytes, decode (image ++ after) = .ok d := by
  have himage : encode d = .ok (header ++ payload d) := encode_eq_ok.mpr ⟨fits_iff.mpr h, rfl⟩
  refine ⟨_, himage, ?_⟩
  intro after
  exact decode_eq_ok_iff.mpr ⟨_, himage, List.prefix_append _ _⟩

/-- A description with every kind of value, operations three deep, and bits that are no number. -/
def medley : Description where
  registers := ["n", "", "größe", "n"]
  controller :=
    [.label "again",
      .instruction (.assign "n" (.op "+" [.op "f" [.op "g" [], .label "λ"],
        .const (.number ⟨0xFFF0000000000001⟩), .const (.bool true)])),
      .instruction (.test (.const .unassigned)),
      .instruction (.goto (.const (.position 0xFFFFFFFFFFFFFFFF))),
      .instruction (.perform (.op "print" [.const (.symbol "a \"b\"\n"), .reg "n"])),
      .label "again"]

theorem decode_encode_append_medley :
    (∀ n ∈ medley.sizes, n < 2 ^ 64) ∧
      ∃ image, encode medley = .ok image ∧
        ∀ after : Bytes, decode (image ++ after) = .ok medley := by
  have h : ∀ n ∈ medley.sizes, n < 2 ^ 64 := by decide
  exact ⟨h, decode_encode_append h⟩

/-- **An image is the only one of its description.** Bytes from which a description is read begin
with its image. So other bytes from which it is read begin alike, and if any byte of the image is
changed, nothing is read or another description. -/
theorem encode_prefix_of_decode {bs : Bytes} {d : Description} (h : decode bs = .ok d) :
    ∃ image, encode d = .ok image ∧ image <+: bs ∧
      (∀ other : Bytes, decode other = .ok d →
        other.take image.length = bs.take image.length) ∧
      ∀ i < image.length, ∀ b : UInt8, bs[i]? ≠ some b → decode (bs.set i b) ≠ .ok d := by
  obtain ⟨image, himage, hprefix⟩ := decode_eq_ok_iff.mp h
  -- every text that is read as this description begins with the one image
  have htake : ∀ other : Bytes, decode other = .ok d → other.take image.length = image := by
    intro other hother
    obtain ⟨image', himage', hprefix'⟩ := decode_eq_ok_iff.mp hother
    have hsame : image' = image := Except.ok.inj (himage'.symm.trans himage)
    rw [hsame] at hprefix'
    exact (List.prefix_iff_eq_take.mp hprefix').symm
  refine ⟨image, himage, hprefix, ?_, ?_⟩
  · intro other hother
    rw [htake other hother, htake bs h]
  · intro i hi b hb hset
    have hlen : image.length ≤ bs.length := hprefix.length_le
    have hsame : (bs.set i b).take image.length = bs.take image.length := by
      rw [htake _ hset, htake bs h]
    have hat : (bs.set i b)[i]? = bs[i]? := by
      have hget := congrArg (fun l => l[i]?) hsame
      simpa [List.getElem?_take, hi] using hget
    rw [List.getElem?_set_self (by omega)] at hat
    exact hb hat.symm

/-- The bytes of a small image, and two more. -/
def longImage : Bytes :=
  [
    82, 69, 71, 77, 65, 67, 72, 73, 77, 65, 71, 69, 10, 48, 46, 49, 46, 48, 10, 1, 0, 0, 0, 0,
    0, 0, 0, 1, 0, 0, 0, 0, 0, 0, 0, 110, 1, 0, 0, 0, 0, 0, 0, 0, 1, 0, 0, 0, 0, 0, 0, 0, 1, 0,
    0, 0, 0, 0, 0, 0, 110, 0, 0, 0, 0, 2, 0, 0, 0, 1, 255, 255]

theorem encode_prefix_of_decode_longImage :
    ∃ d image, decode longImage = .ok d ∧ encode d = .ok image ∧ image <+: longImage ∧
      ∀ i < image.length, ∀ b : UInt8, longImage[i]? ≠ some b →
        decode (longImage.set i b) ≠ .ok d := by
  have h : decode longImage =
      .ok ⟨["n"], [.instruction (.assign "n" (.const (.bool true)))]⟩ := by
    cbv
  obtain ⟨image, himage, hprefix, _, hset⟩ := encode_prefix_of_decode h
  exact ⟨_, image, h, himage, hprefix, hset⟩

end Image

end RegisterMachine
