namespace CaveMap.Text

def lowerLetters (c : Char) : List Char :=
  if 'A' ≤ c ∧ c ≤ 'Z' then [Char.ofNat (c.toNat + 32)]
  else
    match c.toNat with
    | 0x130 => ['i', '\u0307']
    | 0x212A => ['k']
    | _ => [c]

def upperLetters (c : Char) : List Char :=
  if 'a' ≤ c ∧ c ≤ 'z' then [Char.ofNat (c.toNat - 32)]
  else
    match c.toNat with
    | 0xDF => ['S', 'S']
    | 0x131 => ['I']
    | 0x149 => ['\u02BC', 'N']
    | 0x17F => ['S']
    | 0x1F0 => ['J', '\u030C']
    | 0x1E96 => ['H', '\u0331']
    | 0x1E97 => ['T', '\u0308']
    | 0x1E98 => ['W', '\u030A']
    | 0x1E99 => ['Y', '\u030A']
    | 0x1E9A => ['A', '\u02BE']
    | 0xFB00 => ['F', 'F']
    | 0xFB01 => ['F', 'I']
    | 0xFB02 => ['F', 'L']
    | 0xFB03 => ['F', 'F', 'I']
    | 0xFB04 => ['F', 'F', 'L']
    | 0xFB05 => ['S', 'T']
    | 0xFB06 => ['S', 'T']
    | _ => [c]

def lower (text : List Char) : List Char := text.flatMap lowerLetters

def upper (text : List Char) : List Char := text.flatMap upperLetters

end CaveMap.Text
