import CaveMap.Number.Binary64
import CaveMap.Number.Decimal

namespace CaveMap.Binary64

/-- A magnitude is a whole number of decimal units in its last place; this is how many places there are. -/
def places (code : Nat) : Nat := (-exponent code).toNat

def unit (code : Nat) : Nat := Nat.pow 5 (places code) * Nat.pow 2 (exponent code).toNat

def units (code : Nat) : Nat := significand code * unit code

/-- Below a power of two the next magnitude is half as far away as above it. -/
def narrowBelow (code : Nat) : Bool := code % binade = 0 && binade < code

/-- The decimal units that round to the magnitude: between the midpoints to its neighbours, which belong
to it when its significand is even. -/
def readsBack (code n : Nat) : Bool :=
  let low := 4 * units code - (if narrowBelow code then 1 else 2) * unit code
  let high := 4 * units code + 2 * unit code
  if significand code % 2 = 0 then low ≤ 4 * n && 4 * n ≤ high
  else low < 4 * n && 4 * n < high

/-- The number of decimal units on a coarser grid that reads back and lies nearest. -/
def nearestOnGrid? (code drop : Nat) : Option Nat :=
  let grid := Nat.pow 10 drop
  let below := units code / grid
  let above := below + 1
  match readsBack code (below * grid), readsBack code (above * grid) with
  | true, false => some below
  | false, true => some above
  | false, false => none
  | true, true =>
    let middle := (below + above) * grid
    if 2 * units code < middle ∨ (2 * units code = middle ∧ below % 2 = 0) then some below
    else some above

/-- The coarsest grid with a number that reads back, searched downward; the finest grid holds the
magnitude itself. -/
def shortestFrom (code : Nat) : Nat → Decimal
  | 0 => ⟨units code, -(places code : Int)⟩
  | drop + 1 =>
    match nearestOnGrid? code (drop + 1) with
    | some n => ⟨n, (drop + 1 : Nat) - (places code : Int)⟩
    | none => shortestFrom code drop

def shortest (code : Nat) : Decimal :=
  if code = 0 then ⟨0, 0⟩
  else shortestFrom code (Nat.toDigits 10 (units code)).length

end CaveMap.Binary64
