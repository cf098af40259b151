import NodeModel.Toml.Lexeme
import NodeModel.Toml.Value

/-! Numbers, truth values and dates. They are checked, but only their kind is kept. -/
namespace NodeModel.Toml

/-- Digits of a base, with single underscores between them. -/
private def digitsOf (isDigit : Char → Bool) : List Char → Bool
  | [] => false
  | [c] => isDigit c
  | c :: '_' :: rest => isDigit c && digitsOf isDigit rest
  | c :: rest => isDigit c && digitsOf isDigit rest

private def unsigned : List Char → List Char
  | '+' :: rest => rest
  | '-' :: rest => rest
  | cs => cs

/-- Decimal digits without a leading zero. -/
private def isWhole (cs : List Char) : Bool :=
  digitsOf Char.isDigit cs && (cs.length == 1 || cs.head? != some '0')

private def natOf (base : Nat) (cs : List Char) : Nat :=
  (cs.filterMap hexValue?).foldl (fun n d => n * base + d) 0

private def isInteger (cs : List Char) : Bool :=
  match cs with
  | '0' :: 'x' :: rest => digitsOf (hexValue? · |>.isSome) rest && natOf 16 rest < Nat.pow 2 63
  | '0' :: 'o' :: rest => digitsOf (fun c => '0' ≤ c && c ≤ '7') rest && natOf 8 rest < Nat.pow 2 63
  | '0' :: 'b' :: rest =>
    digitsOf (fun c => c == '0' || c == '1') rest && natOf 2 rest < Nat.pow 2 63
  | '-' :: rest => isWhole rest && natOf 10 rest ≤ Nat.pow 2 63
  | _ => isWhole (unsigned cs) && natOf 10 (unsigned cs) < Nat.pow 2 63

/-- Whether `digits` times a power of ten rounds to more than the largest double-precision number:
the bound is half a step above that. -/
private def isInfinite (digits : Nat) (exponent : Int) : Bool :=
  let bound := Nat.pow 2 1024 - Nat.pow 2 970
  let places := (Nat.toDigits 10 digits).length + exponent
  if digits == 0 || places < 309 then false
  else if 309 < places then true
  else bound * Nat.pow 10 (-exponent).toNat ≤ digits * Nat.pow 10 exponent.toNat

/-- Finite numbers and the named ones. A negative number may be out of range. -/
private def isFloat (signed : List Char) : Bool :=
  let cs := unsigned signed
  if cs == "inf".toList || cs == "nan".toList then true
  else
    let whole := cs.takeWhile fun c => c != '.' && c != 'e' && c != 'E'
    let rest := cs.drop whole.length
    let (fraction, rest) := match rest with
      | '.' :: rest =>
        let digits := rest.takeWhile fun c => c != 'e' && c != 'E'
        (some digits, rest.drop digits.length)
      | _ => (none, rest)
    let power := rest.drop 1
    let digits := natOf 10 (whole ++ fraction.getD [])
    let exponent : Int := natOf 10 power * (if power.head? == some '-' then -1 else 1)
    isWhole whole && fraction.all (digitsOf Char.isDigit) &&
      (rest.isEmpty || digitsOf Char.isDigit (unsigned power)) &&
      (fraction.isSome || !rest.isEmpty) &&
      (signed.head? == some '-' ||
        !isInfinite digits (exponent - ((fraction.getD []).filter Char.isDigit).length))

/-- A number of fixed width within bounds. -/
private def inRange (cs : List Char) (width low high : Nat) : Bool :=
  cs.length == width && cs.all Char.isDigit && low ≤ natOf 10 cs && natOf 10 cs ≤ high

private def daysIn (year month : Nat) : Nat :=
  if month == 2 then (if year % 4 == 0 && (year % 100 != 0 || year % 400 == 0) then 29 else 28)
  else if month ∈ [4, 6, 9, 11] then 30 else 31

private def isDay (cs : List Char) : Bool :=
  match cs with
  | [a, b, c, d, '-', e, f, '-', g, h] =>
    inRange [a, b, c, d] 4 0 9999 && inRange [e, f] 2 1 12 &&
      inRange [g, h] 2 1 (daysIn (natOf 10 [a, b, c, d]) (natOf 10 [e, f]))
  | _ => false

private def isClock (cs : List Char) : Bool :=
  match cs with
  | a :: b :: ':' :: c :: d :: ':' :: e :: f :: rest =>
    inRange [a, b] 2 0 23 && inRange [c, d] 2 0 59 && inRange [e, f] 2 0 60 &&
      (match rest with
        | [] => true
        | '.' :: digits => !digits.isEmpty && digits.all Char.isDigit
        | _ => false)
  | _ => false

private def isOffset (cs : List Char) : Bool :=
  match cs with
  | [z] => z == 'Z' || z == 'z'
  | [sign, a, b, ':', c, d] =>
    (sign == '+' || sign == '-') && inRange [a, b] 2 0 23 && inRange [c, d] 2 0 59
  | _ => false

private def isZoned (cs : List Char) : Bool :=
  let time := cs.takeWhile fun c => c.isDigit || c == ':' || c == '.'
  let offset := cs.drop time.length
  isClock time && (offset.isEmpty || isOffset offset)

private def isDate (cs : List Char) : Bool :=
  isDay cs || isClock cs ||
    (isDay (cs.take 10) &&
      match cs.drop 10 with
      | mark :: rest => (mark == 'T' || mark == 't' || mark == ' ') && isZoned rest
      | [] => false)

private def isScalarChar (c : Char) : Bool :=
  c.isAlphanum || c == '+' || c == '-' || c == '_' || c == '.' || c == ':'

private def kind? (cs : List Char) : Option Value :=
  if isDate cs then some .date
  else if cs == "true".toList || cs == "false".toList || isInteger cs || isFloat cs then some .scalar
  else none

/-- A date and a time may be divided by one space. -/
def scalar : Reader Value := fun cs =>
  let word := cs.takeWhile isScalarChar
  let rest := cs.drop word.length
  match rest with
  | ' ' :: c :: more =>
    if isDay word && c.isDigit then
      let word := word ++ ' ' :: (c :: more).takeWhile isScalarChar
      (kind? word).map fun value => (value, cs.drop word.length)
    else (kind? word).map fun value => (value, rest)
  | _ => (kind? word).map fun value => (value, rest)

end NodeModel.Toml
