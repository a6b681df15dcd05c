import Mathlib
import RegisterMachine.Image.Decode

/-!
# Readers of bytes and the writers they undo

A part of an image is read by a decoder and written by an encoder, and all that has to be known of
the two is one equivalence, `Reads`: the decoder answers a value and some rest exactly if the value
fits the format and the bytes are those that the encoder writes for it, followed by that rest. Read
from right to left it says that decoding undoes encoding whatever follows, from left to right that
the value has no other spelling and that exactly its bytes are taken.

The equivalence goes through sequences, repetitions and alternatives, so each part of the format
needs only what its own alternatives are.
-/

namespace RegisterMachine.Image.Decoder

variable {α β : Type}

/-! ## Answers of compound decoders -/

theorem bind_eq_ok {p : Decoder α} {f : α → Decoder β} {bs rest : Bytes} {b : β} :
    (p >>= f) bs = .ok (b, rest) ↔ ∃ a mid, p bs = .ok (a, mid) ∧ f a mid = .ok (b, rest) := by
  show Decoder.bind p f bs = _ ↔ _
  unfold Decoder.bind
  cases hp : p bs with
  | error e => simp
  | ok r =>
      obtain ⟨a, mid⟩ := r
      refine ⟨?_, ?_⟩
      · intro h; exact ⟨a, mid, rfl, h⟩
      · rintro ⟨a', mid', h, hf⟩; cases h; exact hf

theorem pure_eq_ok {a b : α} {bs rest : Bytes} :
    (pure a : Decoder α) bs = .ok (b, rest) ↔ a = b ∧ bs = rest := by
  show Except.ok (a, bs) = Except.ok (b, rest) ↔ _
  simp

theorem fail_ne_ok {e : PayloadError} {bs rest : Bytes} {a : α} :
    (fail e : Decoder α) bs ≠ .ok (a, rest) := by
  intro h
  exact absurd h (by simp [fail])

/-- From any bytes the decoder reads exactly the values that are `ok`, each from what is written for
it and nothing behind that. -/
def Reads (p : Decoder α) (ok : α → Prop) (enc : α → Bytes) : Prop :=
  ∀ ⦃bs a rest⦄, p bs = .ok (a, rest) ↔ ok a ∧ bs = enc a ++ rest

section Sequences

variable {γ : Type} {p : Decoder α} {ok : α → Prop} {enc : α → Bytes} {bs rest : Bytes}

/-- A part that is read first stands at the front. -/
theorem Reads.bind_eq_ok (hp : Reads p ok enc) {f : α → Decoder β} {b : β} :
    (p >>= f) bs = .ok (b, rest) ↔
      ∃ a mid, ok a ∧ bs = enc a ++ mid ∧ f a mid = .ok (b, rest) := by
  rw [Decoder.bind_eq_ok]
  refine exists_congr fun a => exists_congr fun mid => ?_
  rw [hp, and_assoc]

/-- Something with one part. -/
theorem Reads.map_eq_ok (hp : Reads p ok enc) {g : α → β} {b : β} :
    (p >>= fun a => pure (g a)) bs = .ok (b, rest) ↔ ∃ a, ok a ∧ g a = b ∧ bs = enc a ++ rest := by
  rw [hp.bind_eq_ok]
  refine exists_congr fun a => ?_
  refine ⟨?_, ?_⟩
  · rintro ⟨mid, ha, hbs, h⟩
    obtain ⟨hb, rfl⟩ := pure_eq_ok.mp h
    exact ⟨ha, hb, hbs⟩
  · rintro ⟨ha, hb, hbs⟩
    exact ⟨rest, ha, hbs, pure_eq_ok.mpr ⟨hb, rfl⟩⟩

/-- Something with two parts, one behind the other. -/
theorem Reads.map₂_eq_ok (hp : Reads p ok enc) {q : Decoder β} {ok' : β → Prop} {enc' : β → Bytes}
    (hq : Reads q ok' enc') {g : α → β → γ} {c : γ} :
    (p >>= fun a => q >>= fun b => pure (g a b)) bs = .ok (c, rest) ↔
      ∃ a b, ok a ∧ ok' b ∧ g a b = c ∧ bs = enc a ++ (enc' b ++ rest) := by
  rw [hp.bind_eq_ok]
  refine exists_congr fun a => ?_
  refine ⟨?_, ?_⟩
  · rintro ⟨mid, ha, hbs, h⟩
    obtain ⟨b, hb, hc, rfl⟩ := hq.map_eq_ok.mp h
    exact ⟨b, ha, hb, hc, hbs⟩
  · rintro ⟨b, ha, hb, hc, hbs⟩
    exact ⟨enc' b ++ rest, ha, hbs, hq.map_eq_ok.mpr ⟨b, hb, hc, rfl⟩⟩

end Sequences

/-! ## Numbers -/

theorem reads_word (width : Nat) : Reads (word width) (· < 256 ^ width) (Image.word width) := by
  induction width with
  | zero =>
      intro bs n rest
      rw [word, pure_eq_ok, Image.word, List.nil_append]
      show 0 = n ∧ bs = rest ↔ n < 1 ∧ bs = rest
      rw [Nat.lt_one_iff, eq_comm]
  | succ width ih =>
      intro bs n rest
      cases bs with
      | nil => simp [word, Image.word]
      | cons b bs =>
          show (word width >>= fun high => pure (b.toNat + 256 * high)) bs = _ ↔ _
          rw [ih.map_eq_ok]
          have hb : b.toNat < 256 := b.toNat_lt
          have hpow : 256 ^ (width + 1) = 256 * 256 ^ width := Nat.pow_succ'
          refine ⟨?_, ?_⟩
          · rintro ⟨high, hlt, rfl, rfl⟩
            have hlow : UInt8.ofNat (b.toNat + 256 * high) = b := by
              apply UInt8.toNat.inj
              rw [UInt8.toNat_ofNat']
              omega
            have hhigh : (b.toNat + 256 * high) / 256 = high := by omega
            refine ⟨by omega, ?_⟩
            rw [Image.word, hlow, hhigh, List.cons_append]
          · rintro ⟨hlt, h⟩
            rw [Image.word, List.cons_append] at h
            obtain ⟨rfl, hbs⟩ := List.cons.inj h
            have hlow : (UInt8.ofNat n).toNat = n % 256 := UInt8.toNat_ofNat'
            exact ⟨n / 256, by omega, by omega, hbs⟩

theorem fitsWord_iff {n : Nat} : fitsWord n = true ↔ n < 256 ^ 8 := by
  have hpow : 1 <<< 64 = 256 ^ 8 := by decide
  rw [fitsWord, decide_eq_true_eq, hpow]

theorem reads_length : Reads length (fitsWord · = true) Image.length := by
  intro bs n rest
  exact (reads_word 8).trans (and_congr_left' fitsWord_iff.symm)

/-- The index of an alternative is read from its four bytes. -/
theorem reads_variant {count : Nat} (h : count ≤ 256 ^ 4) :
    Reads (variant count) (fun _ => True) (fun i => Image.variant i) := by
  intro bs i rest
  unfold variant
  rw [(reads_word 4).bind_eq_ok]
  refine ⟨?_, ?_⟩
  · rintro ⟨n, mid, _, hbs, hr⟩
    split at hr
    · obtain ⟨rfl, rfl⟩ := pure_eq_ok.mp hr
      exact ⟨trivial, hbs⟩
    · exact absurd hr fail_ne_ok
  · rintro ⟨_, hbs⟩
    have hlt : i.val < 256 ^ 4 := Nat.lt_of_lt_of_le i.isLt h
    refine ⟨i, rest, hlt, hbs, ?_⟩
    rw [dif_pos i.isLt]
    exact pure_eq_ok.mpr ⟨rfl, rfl⟩

theorem reads_bool : Reads bool (fun _ => True) (fun b => [if b then 1 else 0]) := by
  intro bs b rest
  unfold bool
  rw [(reads_word 1).bind_eq_ok]
  refine ⟨?_, ?_⟩
  · rintro ⟨n, mid, _, hbs, hr⟩
    split at hr
    · obtain ⟨rfl, rfl⟩ := pure_eq_ok.mp hr
      exact ⟨trivial, hbs⟩
    · obtain ⟨rfl, rfl⟩ := pure_eq_ok.mp hr
      exact ⟨trivial, hbs⟩
    · exact absurd hr fail_ne_ok
  · rintro ⟨_, hbs⟩
    cases b with
    | false => exact ⟨0, rest, by decide, hbs, pure_eq_ok.mpr ⟨rfl, rfl⟩⟩
    | true => exact ⟨1, rest, by decide, hbs, pure_eq_ok.mpr ⟨rfl, rfl⟩⟩

/-! ## Texts -/

theorem take_eq_ok {n : Nat} {bs front rest : Bytes} :
    take n bs = .ok (front, rest) ↔ front.length = n ∧ bs = front ++ rest := by
  unfold take
  by_cases hn : n ≤ bs.length
  · rw [if_pos hn]
    refine ⟨?_, ?_⟩
    · intro h
      obtain ⟨rfl, rfl⟩ := Prod.mk.inj (Except.ok.inj h)
      exact ⟨List.length_take_of_le hn, (List.take_append_drop n bs).symm⟩
    · rintro ⟨rfl, rfl⟩
      rw [List.take_left, List.drop_left]
  · rw [if_neg hn]
    refine ⟨fun h => absurd h (by simp), ?_⟩
    rintro ⟨rfl, rfl⟩
    rw [List.length_append] at hn
    omega

theorem reads_text : Reads text (textFits · = true) Image.text := by
  intro bs s rest
  unfold text
  rw [reads_length.bind_eq_ok]
  refine ⟨?_, ?_⟩
  · rintro ⟨n, mid, hn, rfl, h⟩
    obtain ⟨bytes, tail, hb, hs⟩ := Decoder.bind_eq_ok.mp h
    obtain ⟨rfl, rfl⟩ := take_eq_ok.mp hb
    cases hdecode : Utf8.decode bytes with
    | error fault =>
        rw [hdecode] at hs
        exact absurd hs fail_ne_ok
    | ok s' =>
        rw [hdecode] at hs
        obtain ⟨rfl, rfl⟩ := pure_eq_ok.mp hs
        have hbytes := Utf8.eq_encode_of_decode hdecode
        subst hbytes
        exact ⟨hn, (List.append_assoc _ _ _).symm⟩
  · rintro ⟨hs, rfl⟩
    refine ⟨(Utf8.encode s).length, Utf8.encode s ++ rest, hs, List.append_assoc _ _ _, ?_⟩
    refine Decoder.bind_eq_ok.mpr ⟨Utf8.encode s, rest, take_eq_ok.mpr ⟨rfl, rfl⟩, ?_⟩
    rw [Utf8.decode_encode]
    exact pure_eq_ok.mpr ⟨rfl, rfl⟩

/-! ## Lists -/

section Lists

variable {p : Decoder α} {ok : α → Prop} {enc : α → Bytes}

theorem Reads.times (hp : Reads p ok enc) (n : Nat) :
    Reads (Decoder.times p n) (fun as => as.length = n ∧ ∀ a ∈ as, ok a) (List.flatMap enc) := by
  induction n with
  | zero =>
      intro bs as rest
      rw [Decoder.times, pure_eq_ok]
      refine ⟨?_, ?_⟩
      · rintro ⟨rfl, rfl⟩; exact ⟨⟨rfl, by simp⟩, rfl⟩
      · rintro ⟨⟨hlen, _⟩, hbs⟩
        rw [List.length_eq_zero_iff] at hlen
        subst hlen
        exact ⟨rfl, hbs⟩
  | succ n ih =>
      intro bs as rest
      rw [Decoder.times, hp.map₂_eq_ok ih]
      refine ⟨?_, ?_⟩
      · rintro ⟨a, as, ha, ⟨hlen, hall⟩, rfl, rfl⟩
        refine ⟨⟨congrArg (· + 1) hlen, List.forall_mem_cons.mpr ⟨ha, hall⟩⟩, ?_⟩
        rw [List.flatMap_cons, List.append_assoc]
      · rintro ⟨⟨hlen, hall⟩, rfl⟩
        obtain ⟨a, as, rfl⟩ := List.exists_cons_of_length_eq_add_one hlen
        obtain ⟨ha, hall⟩ := List.forall_mem_cons.mp hall
        refine ⟨a, as, ha, ⟨Nat.succ.inj hlen, hall⟩, rfl, ?_⟩
        rw [List.flatMap_cons, List.append_assoc]

/-- **A list is read as its members are.** -/
theorem Reads.list (hp : Reads p ok enc) :
    Reads (Decoder.list p) (fun as => fitsWord as.length = true ∧ ∀ a ∈ as, ok a)
      (Image.list enc) := by
  intro bs as rest
  unfold Decoder.list Image.list
  rw [reads_length.bind_eq_ok]
  refine ⟨?_, ?_⟩
  · rintro ⟨n, mid, hn, rfl, h⟩
    obtain ⟨⟨rfl, hall⟩, rfl⟩ := (hp.times n).mp h
    exact ⟨⟨hn, hall⟩, (List.append_assoc _ _ _).symm⟩
  · rintro ⟨⟨hn, hall⟩, rfl⟩
    exact ⟨as.length, as.flatMap enc ++ rest, hn, List.append_assoc _ _ _,
      (hp.times _).mpr ⟨⟨rfl, hall⟩, rfl⟩⟩

end Lists

end RegisterMachine.Image.Decoder
