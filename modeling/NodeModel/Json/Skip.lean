import NodeModel.Json.Lexeme

/-! Values that are passed over. They must be well formed, but numbers may have any size and
escapes may name any code unit. -/
namespace NodeModel.Json

/-- How many characters follow the backslash of an escape, which is checked for its form alone. -/
def escapeLength (cs : List Char) : Except Fault Nat :=
  match cs with
  | [] => .error .endOfText
  | c :: rest =>
    if c = 'u' then do
      let _ ← codeUnit rest
      .ok 5
    else if c ∈ ['"', '\\', '/', 'b', 'f', 'n', 'r', 't'] then .ok 1
    else .error .malformed

/-- Passes over the characters up to the closing quote. -/
def skipChars (passed : Nat) : List Char → Except Fault (List Char)
  | [] => .error .endOfText
  | c :: cs =>
    if 0 < passed then skipChars (passed - 1) cs
    else if c = '"' then .ok cs
    else if c = '\\' then do skipChars (← escapeLength cs) cs
    else if c.toNat < 0x20 then .error .malformed
    else skipChars 0 cs

/-- A string whose opening quote has been read. -/
def skipString (cs : List Char) : Except Fault (List Char) := skipChars 0 cs

/-- At least one digit, then any number of them. -/
private def skipDigits : List Char → Except Fault (List Char)
  | [] => .error .malformed
  | c :: cs => if c.isDigit then .ok (cs.dropWhile Char.isDigit) else .error .malformed

private def skipExponent (cs : List Char) : Except Fault (List Char) :=
  match cs with
  | '+' :: rest | '-' :: rest => skipDigits rest
  | _ => skipDigits cs

private def skipFraction (cs : List Char) : Except Fault (List Char) := do
  match ← skipDigits cs with
  | 'e' :: rest | 'E' :: rest => skipExponent rest
  | rest => .ok rest

/-- A number whose sign has been read. -/
def skipNumber (cs : List Char) : Except Fault (List Char) := do
  let rest ← match cs with
    | '0' :: c :: rest => if c.isDigit then .error .malformed else .ok (c :: rest)
    | '0' :: [] => .ok []
    | _ => skipDigits cs
  match rest with
  | '.' :: rest => skipFraction rest
  | 'e' :: rest | 'E' :: rest => skipExponent rest
  | rest => .ok rest

/-- Moves to the colon after a key and past it. -/
def afterColon (cs : List Char) : Except Fault (List Char) :=
  match skipSpace cs with
  | [] => .error .endOfText
  | ':' :: rest => .ok rest
  | _ => .error .malformed

/-- Moves to the next key of an object and past its opening quote, or past the closing brace. -/
def nextKey (first : Bool) (cs : List Char) : Except Fault (Bool × List Char) :=
  match skipSpace cs with
  | [] => .error .endOfText
  | '\x7d' :: rest => .ok (false, rest)
  | '"' :: rest => if first then .ok (true, rest) else .error .malformed
  | ',' :: rest =>
    if first then .error .malformed
    else match skipSpace rest with
      | [] => .error .endOfText
      | '"' :: rest => .ok (true, rest)
      | _ => .error .malformed
  | _ => .error .malformed

/-- Moves to the next item of an array, or past the closing bracket. -/
def nextItem (first : Bool) (cs : List Char) : Except Fault (Bool × List Char) :=
  match skipSpace cs with
  | [] => .error .endOfText
  | ']' :: rest => .ok (false, rest)
  | c :: rest =>
    if first then .ok (true, c :: rest)
    else if c = ',' then
      match skipSpace rest with
      | [] => .error .endOfText
      | ']' :: _ => .error .malformed
      | rest => .ok (true, rest)
    else .error .malformed

mutual

/-- Passes over one value; `fuel` bounds the number of values and separators. -/
def skipValue : Nat → List Char → Except Fault (List Char)
  | 0, _ => .error .malformed
  | fuel + 1, cs =>
    match skipSpace cs with
    | [] => .error .endOfText
    | 'n' :: rest => afterLetters "ull".toList rest
    | 't' :: rest => afterLetters "rue".toList rest
    | 'f' :: rest => afterLetters "alse".toList rest
    | '-' :: rest => skipNumber rest
    | '"' :: rest => skipString rest
    | '[' :: rest => skipItems fuel true rest
    | '\x7b' :: rest => skipMembers fuel true rest
    | c :: rest => if c.isDigit then skipNumber (c :: rest) else .error .malformed

def skipItems : Nat → Bool → List Char → Except Fault (List Char)
  | 0, _, _ => .error .malformed
  | fuel + 1, first, cs => do
    let (more, rest) ← nextItem first cs
    if more then skipItems fuel false (← skipValue fuel rest) else .ok rest

def skipMembers : Nat → Bool → List Char → Except Fault (List Char)
  | 0, _, _ => .error .malformed
  | fuel + 1, first, cs => do
    let (more, rest) ← nextKey first cs
    if more then
      let rest ← afterColon (← skipString rest)
      skipMembers fuel false (← skipValue fuel rest)
    else .ok rest

end

def skip (cs : List Char) : Except Fault (List Char) := skipValue (2 * cs.length + 2) cs

end NodeModel.Json
