import CaveMap.Number.Binary64
import CaveMap.Text.Digit
import CaveMap.Text.Letter

namespace CaveMap.Numeral

def dropUnderscores? (isDigit : Char → Bool) : List Char → Option (List Char)
  | [] => some []
  | '_' :: _ => none
  | c :: '_' :: d :: rest =>
    if isDigit c && isDigit d then (dropUnderscores? isDigit (d :: rest)).map (c :: ·) else none
  | c :: rest => (dropUnderscores? isDigit rest).map (c :: ·)

def digitsValue? (base : Nat) : List Char → Option Nat
  | [] => none
  | digits => digits.foldlM (fun n c => (Text.digitIn? base c).map (n * base + ·)) 0

def splitSign : List Char → Bool × List Char
  | '-' :: rest => (true, rest)
  | '+' :: rest => (false, rest)
  | rest => (false, rest)

def dropBaseMark (base : Nat) (text : List Char) : List Char :=
  let marks : Char → Bool := fun c =>
    (base = 16 && (c = 'x' || c = 'X')) || (base = 8 && (c = 'o' || c = 'O')) ||
      (base = 2 && (c = 'b' || c = 'B'))
  match text with
  | '0' :: c :: '_' :: rest => if marks c then rest else text
  | '0' :: c :: rest => if marks c then rest else text
  | _ => text

/-- An integer with optional sign and surrounding white space; digits of every script count. -/
def integer? (base : Nat) (text : String) : Option Int :=
  let (negative, rest) := splitSign (Text.stripOf Text.isSpace text.toList)
  let digits := dropBaseMark base rest
  ((dropUnderscores? (fun c => (Text.digitIn? base c).isSome) digits).bind (digitsValue? base)).map
    (Binary64.signed negative)

/-- Digits, an optional fraction and an optional exponent: the digits as one number and its exponent. -/
def decimal? (text : List Char) : Option (Nat × Int) :=
  let isDigit : Char → Bool := fun c => (Text.decimalDigit? c).isSome
  let whole := text.takeWhile isDigit
  let rest := text.dropWhile isDigit
  let (fraction, rest) :=
    match rest with
    | '.' :: more => (more.takeWhile isDigit, more.dropWhile isDigit)
    | _ => ([], rest)
  let power? : Option Int :=
    match rest with
    | [] => some 0
    | e :: more =>
      if e = 'e' ∨ e = 'E' then
        let (negative, digits) := splitSign more
        (digitsValue? 10 digits).map (Binary64.signed negative)
      else none
  match digitsValue? 10 (whole ++ fraction), power? with
  | some n, some power => some (n, power - fraction.length)
  | _, _ => none

def named? (negative : Bool) (text : List Char) : Option Binary64 :=
  let name := String.ofList (text.map Char.toLower)
  if name = "inf" ∨ name = "infinity" then some (.infinite negative)
  else if name = "nan" then some .nan
  else none

def unsigned? (negative : Bool) (text : List Char) : Option Binary64 :=
  (named? negative text).or
    ((decimal? text).map fun (digits, exponent) => Binary64.ofDecimal negative digits exponent)

/-- A floating-point number with optional sign and surrounding white space; digits of every script count,
and single underscores may stand between them. -/
def float? (text : String) : Option Binary64 :=
  let (negative, rest) := splitSign (Text.stripOf Text.isSpace text.toList)
  (dropUnderscores? (fun c => (Text.decimalDigit? c).isSome) rest).bind (unsigned? negative)

end CaveMap.Numeral
