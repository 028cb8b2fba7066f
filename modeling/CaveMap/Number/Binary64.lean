namespace CaveMap

def binade : Nat := 0x10000000000000

def magnitudeCount : Nat := 0x7FF * binade

inductive Binary64
  | nan
  | infinite (negative : Bool)
  | finite (negative : Bool) (code : Fin magnitudeCount)
  deriving DecidableEq

namespace Binary64

def significand (code : Nat) : Nat :=
  if code < binade then code else binade + code % binade

def exponent (code : Nat) : Int :=
  if code < binade then -1074 else (code / binade : Nat) - 1075

/-- A quotient rounded to the nearest integer, a tie to the even one. -/
def roundedQuotient (num den : Nat) : Nat :=
  let whole := num / den
  let rest := num % den
  if 2 * rest < den ∨ (2 * rest = den ∧ whole % 2 = 0) then whole else whole + 1

def floorLog2 (num den : Nat) : Int :=
  let guess : Int := (num.log2 : Int) - (den.log2 : Int)
  if den * Nat.pow 2 guess.toNat ≤ num * Nat.pow 2 (-guess).toNat then guess else guess - 1

/-- The code of the magnitude nearest to a quotient; codes past the finite ones stand for infinity. -/
def nearestCode (num den : Nat) : Nat :=
  if num = 0 then 0
  else
    let e := max (floorLog2 num den - 52) (-1074)
    (e + 1074).toNat * binade + roundedQuotient (num * Nat.pow 2 (-e).toNat) (den * Nat.pow 2 e.toNat)

def ofCode (negative : Bool) (code : Nat) : Binary64 :=
  if h : code < magnitudeCount then finite negative ⟨code, h⟩ else infinite negative

def ofRatio (negative : Bool) (num den : Nat) : Binary64 :=
  ofCode negative (nearestCode num den)

def ofInt (i : Int) : Binary64 := ofRatio (i < 0) i.natAbs 1

def ofDecimal (negative : Bool) (digits : Nat) (exponent : Int) : Binary64 :=
  let reach : Int := (Nat.toDigits 10 digits).length + exponent
  if digits = 0 ∨ reach < -400 then ofCode negative 0
  else if reach > 400 then infinite negative
  else ofRatio negative (digits * Nat.pow 10 exponent.toNat) (Nat.pow 10 (-exponent).toNat)

def ofScaled (negative : Bool) (n : Nat) (exponent : Int) : Binary64 :=
  ofRatio negative (n * Nat.pow 2 exponent.toNat) (Nat.pow 2 (-exponent).toNat)

def isNegative : Binary64 → Bool
  | nan => false
  | infinite negative => negative
  | finite negative _ => negative

def negate : Binary64 → Binary64
  | nan => nan
  | infinite negative => infinite !negative
  | finite negative code => finite (!negative) code

def isFinite : Binary64 → Bool
  | finite _ _ => true
  | _ => false

def isZero : Binary64 → Bool
  | finite _ code => code.val = 0
  | _ => false

def mul : Binary64 → Binary64 → Binary64
  | nan, _ => nan
  | _, nan => nan
  | finite s a, finite t b =>
    ofScaled (s != t) (significand a * significand b) (exponent a + exponent b)
  | x, y => if x.isZero || y.isZero then nan else infinite (x.isNegative != y.isNegative)

def signed (negative : Bool) (n : Nat) : Int := if negative then -(n : Int) else n

def add : Binary64 → Binary64 → Binary64
  | nan, _ => nan
  | _, nan => nan
  | infinite s, infinite t => if s = t then infinite s else nan
  | infinite s, _ => infinite s
  | _, infinite t => infinite t
  | finite s a, finite t b =>
    let e := min (exponent a) (exponent b)
    let sum := signed s (significand a * Nat.pow 2 (exponent a - e).toNat) +
      signed t (significand b * Nat.pow 2 (exponent b - e).toNat)
    if sum = 0 then ofCode (s && t) 0 else ofScaled (sum < 0) sum.natAbs e

def isPositive : Binary64 → Bool
  | nan => false
  | infinite negative => !negative
  | finite negative code => !negative && code.val ≠ 0

def isNonnegative : Binary64 → Bool
  | nan => false
  | infinite negative => !negative
  | finite negative code => !negative || code.val = 0

def equals : Binary64 → Binary64 → Bool
  | infinite s, infinite t => s = t
  | finite s a, finite t b => a = b && (s = t || a.val = 0)
  | _, _ => false

def toInt? : Binary64 → Option Int
  | finite negative code =>
    let e := exponent code
    let unit := Nat.pow 2 (-e).toNat
    if significand code % unit = 0 then
      some (signed negative (significand code / unit * Nat.pow 2 e.toNat))
    else none
  | _ => none

def equalsInt (x : Binary64) (i : Int) : Bool := x.toInt? = some i

def split? : Binary64 → Option (Int × Binary64)
  | finite negative code =>
    let e := exponent code
    let unit := Nat.pow 2 (-e).toNat
    let m := significand code * Nat.pow 2 e.toNat
    some (signed negative (m / unit), ofScaled negative (m % unit) (min e 0))
  | _ => none

/-- The nearest integer, a tie to the even one. -/
def round? : Binary64 → Option Int
  | finite negative code =>
    let e := exponent code
    some (signed negative (roundedQuotient (significand code * Nat.pow 2 e.toNat) (Nat.pow 2 (-e).toNat)))
  | _ => none

end Binary64

end CaveMap
