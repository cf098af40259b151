import NodeModel.Decimal.Shortest

/-! Double-precision numbers as decimal text. -/
namespace NodeModel.Decimal

/-- How a number is laid out once its digits are known. -/
structure Layout where
  /-- The point stands inside or next to the digits for leading exponents in this range. -/
  leastPositional : Int
  greatestPositional : Int
  /-- Written between `e` and a positive exponent. -/
  plus : String
deriving Repr

/-- Positional from five places behind the point up to sixteen before it. -/
def Layout.plain : Layout := ⟨-5, 15, "+"⟩

private def zeros (count : Nat) : String := String.ofList (List.replicate count '0')

def Layout.render (layout : Layout) (d : Decimal) : String :=
  let digits := (Nat.toDigits 10 d.digits)
  let top : Int := d.exponent + digits.length - 1
  if layout.leastPositional ≤ top && top ≤ layout.greatestPositional then
    if 0 ≤ d.exponent then String.ofList digits ++ zeros d.exponent.toNat ++ ".0"
    else if 0 ≤ top then
      String.ofList (digits.take (top.toNat + 1)) ++ "." ++ String.ofList (digits.drop (top.toNat + 1))
    else "0." ++ zeros ((-top).toNat - 1) ++ String.ofList digits
  else
    let fraction := match digits with
      | first :: second :: rest => String.ofList (first :: '.' :: second :: rest)
      | _ => String.ofList digits
    fraction ++ "e" ++ (if 0 ≤ top then layout.plus else "-") ++ toString top.natAbs

/-- Sign, and the binary fraction of a finite number other than zero. -/
def decode (x : Float) : Bool × Option Binary :=
  let bits := x.toBits.toNat
  let fraction := bits % Nat.pow 2 52
  let exponent : Nat := bits / Nat.pow 2 52 % Nat.pow 2 11
  let negative := bits / Nat.pow 2 63 == 1
  if exponent == 0 then
    (negative, if fraction == 0 then none else some ⟨fraction, -1074, false⟩)
  else
    (negative,
      some ⟨Nat.pow 2 52 + fraction, (exponent : Int) - 1075, fraction == 0 && exponent != 1⟩)

/-- The text of a finite number. -/
def Layout.text (layout : Layout) (x : Float) : String :=
  let (negative, value) := decode x
  (if negative then "-" else "") ++
    match value with
    | none => "0.0"
    | some b => layout.render b.shortest

/-- `significand * 10 ^ exponent`, or nothing when that is beyond every finite number.
Each step rounds: the significand first, then its product or quotient with a power of ten. -/
def scale (significand : Nat) (exponent : Int) : Option Float :=
  go 4 (Float.ofScientific significand false 0) exponent
where
  power (e : Nat) : Float := Float.ofScientific 1 false e
  go : Nat → Float → Int → Option Float
    | 0, x, _ => some x
    | fuel + 1, x, e =>
      if e.natAbs ≤ 308 then
        if 0 ≤ e then
          let y := x * power e.natAbs
          if y.isInf then none else some y
        else some (x / power e.natAbs)
      else if x == 0.0 then some x
      else if 0 ≤ e then none
      else go fuel (x / power 308) (e + 308)

end NodeModel.Decimal
