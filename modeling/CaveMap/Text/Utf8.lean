namespace CaveMap.Text

/-- A character that has begun: the value read so far, how many bytes are missing, and the range of the
next one. -/
structure PartialChar where
  value : Nat
  missing : Nat
  low : Nat
  high : Nat

/-- What a byte can be at the start of a character. -/
inductive Lead
  | char (c : Char)
  | opening (p : PartialChar)
  | stray

/-- The ranges of the second byte leave out long forms of shorter characters, surrogates and values past
the last code point. -/
def lead (b : UInt8) : Lead :=
  let n := b.toNat
  if n < 0x80 then .char (Char.ofNat n)
  else if n < 0xC2 then .stray
  else if n < 0xE0 then .opening ⟨n - 0xC0, 1, 0x80, 0xBF⟩
  else if n < 0xF0 then
    .opening ⟨n - 0xE0, 2, if n = 0xE0 then 0xA0 else 0x80, if n = 0xED then 0x9F else 0xBF⟩
  else if n < 0xF5 then
    .opening ⟨n - 0xF0, 3, if n = 0xF0 then 0x90 else 0x80, if n = 0xF4 then 0x8F else 0xBF⟩
  else .stray

/-- The characters that bytes stand for; each longest stretch that begins no character gives `none`. -/
def decodeUtf8From : Option PartialChar → List UInt8 → List (Option Char)
  | none, [] => []
  | some _, [] => [none]
  | pending, b :: rest =>
    let start (_ : Unit) : List (Option Char) :=
      match lead b with
      | .char c => some c :: decodeUtf8From none rest
      | .opening p => decodeUtf8From (some p) rest
      | .stray => none :: decodeUtf8From none rest
    match pending with
    | none => start ()
    | some p =>
      if p.low ≤ b.toNat ∧ b.toNat ≤ p.high then
        let value := p.value * 64 + (b.toNat - 0x80)
        if p.missing = 1 then some (Char.ofNat value) :: decodeUtf8From none rest
        else decodeUtf8From (some ⟨value, p.missing - 1, 0x80, 0xBF⟩) rest
      else none :: start ()

def decodeUtf8 (bytes : List UInt8) : List (Option Char) := decodeUtf8From none bytes

def ofUtf8? (bytes : List UInt8) : Option String := ((decodeUtf8 bytes).mapM id).map String.ofList

def utf8 (text : List Char) : List UInt8 := text.flatMap String.utf8EncodeChar

end CaveMap.Text
