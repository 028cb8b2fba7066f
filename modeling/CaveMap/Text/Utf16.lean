namespace CaveMap.Text

inductive ByteOrder
  | little
  | big
  deriving DecidableEq

namespace ByteOrder

def unit : ByteOrder → UInt8 → UInt8 → Nat
  | little, a, b => a.toNat + 256 * b.toNat
  | big, a, b => 256 * a.toNat + b.toNat

def bytes : ByteOrder → Nat → List UInt8
  | little, n => [(n % 256).toUInt8, (n / 256).toUInt8]
  | big, n => [(n / 256).toUInt8, (n % 256).toUInt8]

end ByteOrder

def isLeadingUnit (n : Nat) : Bool := 0xD800 ≤ n && n < 0xDC00

def isTrailingUnit (n : Nat) : Bool := 0xDC00 ≤ n && n < 0xE000

def pairedChar (leading trailing : Nat) : Char :=
  Char.ofNat (0x10000 + (leading - 0xD800) * 0x400 + (trailing - 0xDC00))

/-- The characters that bytes stand for; a half of a pair without the other one gives `none`, and so does
what is cut off at the end. -/
def decodeUtf16 (order : ByteOrder) : List UInt8 → List (Option Char)
  | [] => []
  | [_] => [none]
  | a :: b :: rest =>
    let n := order.unit a b
    if isTrailingUnit n then none :: decodeUtf16 order rest
    else if isLeadingUnit n then
      match rest with
      | c :: d :: more =>
        if isTrailingUnit (order.unit c d) then
          some (pairedChar n (order.unit c d)) :: decodeUtf16 order more
        else none :: decodeUtf16 order (c :: d :: more)
      | _ => [none]
    else some (Char.ofNat n) :: decodeUtf16 order rest

def unitsOf (c : Char) : List Nat :=
  if c.toNat < 0x10000 then [c.toNat]
  else [0xD800 + (c.toNat - 0x10000) / 0x400, 0xDC00 + (c.toNat - 0x10000) % 0x400]

def utf16 (order : ByteOrder) (text : List Char) : List UInt8 :=
  (text.flatMap unitsOf).flatMap order.bytes

end CaveMap.Text
