/-!
# Text in bytes

Text is kept in files and images in UTF-8. Where bytes are no such text the first place at fault is
reported: the character that begins there is either cut off by the end of the bytes, or broken by a
byte that cannot stand in it, and then the bytes before that one are its length.

Reading accepts exactly what writing produces: `decode_encode`, `eq_encode_of_decode`.
-/

namespace RegisterMachine

abbrev Bytes : Type := List UInt8

namespace Utf8

/-- Where bytes stop being text. -/
structure Fault where
  /-- The number of bytes that are text. -/
  index : Nat
  /-- How many bytes the broken character has, unless the bytes end within it. -/
  length : Option Nat
deriving DecidableEq

def Fault.message (f : Fault) : String :=
  match f.length with
  | some n =>
    "invalid utf-8 sequence of " ++ toString n ++ " bytes from index " ++ toString f.index
  | none => "incomplete utf-8 byte sequence from index " ++ toString f.index

/-- The bytes that may follow the first byte of a character, each as a range; `none` if the byte
begins no character. The narrower ranges keep out over-long forms, surrogates and code points beyond
the last. -/
def followers (first : UInt8) : Option (List (UInt8 × UInt8)) :=
  let tail : UInt8 × UInt8 := (0x80, 0xBF)
  if first ≤ 0x7F then some []
  else if first < 0xC2 then none
  else if first ≤ 0xDF then some [tail]
  else if first = 0xE0 then some [(0xA0, 0xBF), tail]
  else if first = 0xED then some [(0x80, 0x9F), tail]
  else if first ≤ 0xEF then some [tail, tail]
  else if first = 0xF0 then some [(0x90, 0xBF), tail, tail]
  else if first ≤ 0xF3 then some [tail, tail, tail]
  else if first = 0xF4 then some [(0x80, 0x8F), tail, tail]
  else none

/-- Looks for the first fault in bytes of which `index` were passed, the last `index - start` of
them as the beginning of a character that still needs `pending`. -/
def faultFrom (start index : Nat) (pending : List (UInt8 × UInt8)) : Bytes → Option Fault
  | [] => if pending.isEmpty then none else some ⟨start, none⟩
  | b :: bs =>
    match pending with
    | [] =>
      match followers b with
      | some ranges => faultFrom index (index + 1) ranges bs
      | none => some ⟨index, some 1⟩
    | (lo, hi) :: ranges =>
      if lo ≤ b ∧ b ≤ hi then faultFrom start (index + 1) ranges bs
      else some ⟨start, some (index - start)⟩

/-- The first fault in some bytes. -/
def fault? (bs : Bytes) : Option Fault := faultFrom 0 0 [] bs

/-- The bytes of a text. -/
def encode (s : String) : Bytes := s.toUTF8.data.toList

/-- The text that bytes are. -/
def decode (bs : Bytes) : Except Fault String :=
  match String.fromUTF8? ⟨bs.toArray⟩ with
  | some s => .ok s
  | none => .error ((fault? bs).getD ⟨0, none⟩)

/-- The bytes of a text are read as that text. -/
theorem decode_encode (s : String) : decode (encode s) = .ok s := by
  have h : String.fromUTF8? ⟨(encode s).toArray⟩ = some s := by
    rw [encode, Array.toArray_toList]
    exact dif_pos s.isValidUTF8
  simp [decode, h]

/-- No other bytes are read as that text. -/
theorem eq_encode_of_decode {bs : Bytes} {s : String} (h : decode bs = .ok s) : bs = encode s := by
  unfold decode String.fromUTF8? at h
  split at h
  · next hs =>
    split at hs
    · cases h
      cases hs
      simp [encode, String.fromUTF8]
    · cases hs
  · cases h

end Utf8

end RegisterMachine
