import RegisterMachine.Text.Utf8

/-!
# Why an image cannot be made or read
-/

namespace RegisterMachine

/-- What is wrong behind the header of an image. -/
inductive PayloadError where
  /-- The bytes end within a number, a truth value or a length. -/
  | endOfBytes
  /-- The bytes end within a text. -/
  | endOfText
  | badText (fault : Utf8.Fault)
  | badBool (byte : Nat)
  /-- No alternative has this index, of so many. -/
  | badVariant (index count : Nat)
deriving DecidableEq

def PayloadError.message : PayloadError → String
  | endOfBytes => "io error: unexpected end of file"
  | endOfText => "io error: "
  | badText fault => "string is not valid utf8: " ++ fault.message
  | badBool byte => "invalid u8 while decoding bool, expected 0 or 1, found " ++ toString byte
  | badVariant index count =>
    "invalid value: integer \x60" ++ toString index ++ "\x60, expected variant index 0 <= i < " ++
      toString count

inductive ImageError where
  /-- A length or a position is too great for the format. -/
  | tooLarge
  /-- The bytes do not begin as an image does. -/
  | noDeclaration
  /-- The bytes are an image of another version. -/
  | otherVersion
  | payload (e : PayloadError)
deriving DecidableEq

def ImageError.message : ImageError → String
  | tooLarge => "could not encode image: the size limit has been reached"
  | noDeclaration => "malformed image header (ImageDecl)"
  | otherVersion => "malformed image header (Version)"
  | payload e => "malformed image payload: " ++ e.message

end RegisterMachine
