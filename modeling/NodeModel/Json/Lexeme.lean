import NodeModel.Json.Fault
import NodeModel.Json.Value
import NodeModel.Decimal.Real

/-! Literals, strings and numbers of a JSON text. -/
namespace NodeModel.Json

def isSpace (c : Char) : Bool := c == ' ' || c == '\n' || c == '\t' || c == '\r'

def skipSpace (cs : List Char) : List Char := cs.dropWhile isSpace

/-- What follows `word`, whose first letter has been read already. -/
def afterLetters : List Char → List Char → Except Fault (List Char)
  | [], cs => .ok cs
  | _ :: _, [] => .error .endOfText
  | letter :: word, c :: cs => if letter = c then afterLetters word cs else .error .malformed

def hexValue? (c : Char) : Option Nat :=
  if '0' ≤ c && c ≤ '9' then some (c.toNat - '0'.toNat)
  else if 'a' ≤ c && c ≤ 'f' then some (c.toNat - 'a'.toNat + 10)
  else if 'A' ≤ c && c ≤ 'F' then some (c.toNat - 'A'.toNat + 10)
  else none

def byteCount (cs : List Char) : Nat := (String.ofList cs).utf8ByteSize

/-- Four hexadecimal digits. A text with fewer than four bytes left ends too early. -/
def codeUnit (cs : List Char) : Except Fault Nat :=
  if byteCount (cs.take 4) < 4 then .error .endOfText
  else match (cs.take 4).mapM hexValue? with
    | some [a, b, c, d] => .ok (((a * 16 + b) * 16 + c) * 16 + d)
    | _ => .error .malformed

/-- The low half of a surrogate pair, whose high half stands before `cs`. -/
def lowUnit (cs : List Char) : Except Fault Nat :=
  match cs with
  | [] => .error .endOfText
  | ['\\'] => .error .endOfText
  | '\\' :: 'u' :: rest => do
    let low ← codeUnit rest
    if 0xDC00 ≤ low && low ≤ 0xDFFF then .ok low else .error .malformed
  | _ => .error .malformed

/-- The character that an escape stands for, and how many characters follow its backslash. -/
def escape (cs : List Char) : Except Fault (Char × Nat) :=
  match cs with
  | [] => .error .endOfText
  | c :: rest =>
    match c with
    | '"' => .ok ('"', 1)
    | '\\' => .ok ('\\', 1)
    | '/' => .ok ('/', 1)
    | 'b' => .ok (Char.ofNat 8, 1)
    | 'f' => .ok (Char.ofNat 12, 1)
    | 'n' => .ok ('\n', 1)
    | 'r' => .ok ('\r', 1)
    | 't' => .ok ('\t', 1)
    | 'u' => do
      let unit ← codeUnit rest
      if 0xDC00 ≤ unit && unit ≤ 0xDFFF then .error .malformed
      else if 0xD800 ≤ unit && unit ≤ 0xDBFF then
        let low ← lowUnit (rest.drop 4)
        .ok (Char.ofNat (0x10000 + (unit - 0xD800) * 0x400 + (low - 0xDC00)), 11)
      else .ok (Char.ofNat unit, 5)
    | _ => .error .malformed

/-- The characters up to the closing quote. The next `passed` ones belong to an escape that has
been read already. -/
def readChars (passed : Nat) : List Char → Except Fault (List Char × List Char)
  | [] => .error .endOfText
  | c :: cs =>
    if 0 < passed then readChars (passed - 1) cs
    else if c = '"' then .ok ([], cs)
    else if c = '\\' then do
      let (value, length) ← escape cs
      let (text, rest) ← readChars length cs
      .ok (value :: text, rest)
    else if c.toNat < 0x20 then .error .malformed
    else do
      let (text, rest) ← readChars 0 cs
      .ok (c :: text, rest)

/-- A string whose opening quote has been read. -/
def readString : Reader String := fun cs => do
  let (text, rest) ← readChars 0 cs
  .ok (String.ofList text, rest)

private def digitValue (c : Char) : Nat := c.toNat - '0'.toNat

/-- The significand is a 64-bit word: digits that no longer fit are only counted. -/
private def wordLimit : Nat := UInt64.size

/-- Digits taken into the significand, and how many of them there were. -/
private def takeDigits : Nat → Nat → List Char → Nat × Nat × List Char
  | significand, count, [] => (significand, count, [])
  | significand, count, c :: cs =>
    if c.isDigit && significand * 10 + digitValue c < wordLimit then
      takeDigits (significand * 10 + digitValue c) (count + 1) cs
    else (significand, count, c :: cs)

private def finish (negative : Bool) (significand : Nat) (exponent : Int) (rest : List Char) :
    Except Fault (Number × List Char) :=
  match Decimal.scale significand exponent with
  | none => .error .malformed
  | some x => .ok (.real (Decimal.Layout.plain.text (if negative then -x else x)), rest)

/-- The exponent, whose mark has been read. -/
private def readExponent (negative : Bool) (significand : Nat) (start : Int) (cs : List Char) :
    Except Fault (Number × List Char) :=
  let (down, cs) := match cs with
    | '+' :: rest => (false, rest)
    | '-' :: rest => (true, rest)
    | _ => (false, cs)
  match cs with
  | [] => .error .endOfText
  | c :: rest =>
    if !c.isDigit then .error .malformed
    else
      let value : Int := (c :: rest.takeWhile Char.isDigit).foldl (fun n d => n * 10 + digitValue d) 0
      finish negative significand (if down then start - value else start + value)
        (rest.dropWhile Char.isDigit)

private def readTail (negative : Bool) (significand : Nat) (exponent : Int) (cs : List Char) :
    Except Fault (Number × List Char) :=
  match cs with
  | 'e' :: rest | 'E' :: rest => readExponent negative significand exponent rest
  | _ => finish negative significand exponent cs

/-- The digits behind the point, which has been read. -/
private def readFraction (negative : Bool) (significand : Nat) (exponent : Int) (cs : List Char) :
    Except Fault (Number × List Char) :=
  match cs with
  | [] => .error .endOfText
  | c :: _ =>
    if !c.isDigit then .error .malformed
    else
      let (significand, count, rest) := takeDigits significand 0 cs
      readTail negative significand (exponent - count) (rest.dropWhile Char.isDigit)

private def whole (negative : Bool) (significand : Nat) : Number :=
  if !negative then .integer significand
  else if significand == 0 || Nat.pow 2 63 < significand then
    .real (Decimal.Layout.plain.text (-(Float.ofScientific significand false 0)))
  else .integer (-significand)

/-- A number whose sign has been read. -/
def readNumber (negative : Bool) (cs : List Char) : Except Fault (Number × List Char) :=
  match cs with
  | [] => .error .endOfText
  | '0' :: rest =>
    match rest with
    | '.' :: rest => readFraction negative 0 0 rest
    | 'e' :: rest | 'E' :: rest => readExponent negative 0 0 rest
    | c :: _ => if c.isDigit then .error .malformed else .ok (whole negative 0, rest)
    | [] => .ok (whole negative 0, [])
  | c :: _ =>
    if !c.isDigit then .error .malformed
    else
      let (significand, _, rest) := takeDigits 0 0 cs
      let extra := rest.takeWhile Char.isDigit
      let rest := rest.dropWhile Char.isDigit
      match rest with
      | '.' :: rest => readFraction negative significand extra.length rest
      | 'e' :: rest | 'E' :: rest => readExponent negative significand extra.length rest
      | _ =>
        if extra.isEmpty then .ok (whole negative significand, rest)
        else finish negative significand extra.length rest

end NodeModel.Json
