/-! The shortest decimal that reads back as a given binary fraction.
A positive value is `m * 2 ^ q`; a decimal is `digits * 10 ^ exponent`. -/
namespace NodeModel

structure Decimal where
  digits : Nat
  exponent : Int
deriving DecidableEq, Repr

namespace Decimal

/-- A positive binary fraction `m * 2 ^ q`, where `narrow` says that the gap to the next smaller
value is half the gap to the next larger one. -/
structure Binary where
  m : Nat
  q : Int
  narrow : Bool
deriving DecidableEq, Repr

/-- Numerator and denominator of `a * 2 ^ q`. -/
private def ratio (a : Nat) (q : Int) : Nat × Nat :=
  if 0 ≤ q then (a * Nat.pow 2 q.toNat, 1) else (a, Nat.pow 2 (-q).toNat)

/-- Whether `digits * 10 ^ exponent` lies in the interval of reals that round to `b`;
the ends belong to it when `m` is even. -/
def Binary.contains (b : Binary) (d : Decimal) : Bool :=
  let (low, den) := ratio (4 * b.m - (if b.narrow then 1 else 2)) (b.q - 2)
  let (high, _) := ratio (4 * b.m + 2) (b.q - 2)
  let (x, y) :=
    if 0 ≤ d.exponent then (d.digits * Nat.pow 10 d.exponent.toNat, 1)
    else (d.digits, Nat.pow 10 (-d.exponent).toNat)
  if b.m % 2 == 0 then low * y ≤ x * den && x * den ≤ high * y
  else low * y < x * den && x * den < high * y

/-- The two neighbours of `b` on the grid of multiples of `10 ^ exponent`, nearer one first;
of two equally near the even one. -/
def Binary.neighbours (b : Binary) (exponent : Int) : List Decimal :=
  let (num, den) := ratio b.m b.q
  let (num, den) :=
    if 0 ≤ exponent then (num, den * Nat.pow 10 exponent.toNat)
    else (num * Nat.pow 10 (-exponent).toNat, den)
  let below := num / den
  let twice := 2 * (num % den)
  if twice < den || (twice == den && below % 2 == 0) then
    [⟨below, exponent⟩, ⟨below + 1, exponent⟩]
  else [⟨below + 1, exponent⟩, ⟨below, exponent⟩]

/-- The exponent of the leading decimal digit, searched downwards from `top`. -/
private def leading (num den : Nat) : Nat → Int → Int
  | 0, top => top
  | fuel + 1, top =>
    let reached :=
      if 0 ≤ top then den * Nat.pow 10 top.toNat ≤ num else den ≤ num * Nat.pow 10 (-top).toNat
    if reached then top else leading num den fuel (top - 1)

/-- Grids of one digit, two digits and so on; the first with a hit decides. -/
private def search (b : Binary) (top : Int) : Nat → Nat → Option Decimal
  | 0, _ => none
  | fuel + 1, count =>
    match (b.neighbours (top - count)).find? b.contains with
    | some d => some d
    | none => search b top fuel (count + 1)

def dropZeros : Nat → Decimal → Decimal
  | 0, d => d
  | fuel + 1, d =>
    if d.digits % 10 == 0 && d.digits != 0 then dropZeros fuel ⟨d.digits / 10, d.exponent + 1⟩ else d

def Binary.shortest (b : Binary) : Decimal :=
  let (num, den) := ratio b.m b.q
  let top := leading num den 700 320
  dropZeros 20 ((search b top 18 0).getD ⟨0, 0⟩)

end Decimal

end NodeModel
