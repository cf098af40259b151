import NodeModel.Json.Skip

/-! Readers for the shapes a document is made of: text, flags, lists, records and choices.
A record is an object, or an array of its members in order. -/
namespace NodeModel.Json

/-- The fault for a value that is not of the expected shape. The value is read only as far as its
description needs. -/
def mismatch (expected : String) (cs : List Char) : Fault :=
  let wrong (found : Found) : Fault := .shape (.type found expected)
  let literal (word : String) (found : Found) (rest : List Char) : Fault :=
    match afterLetters word.toList rest with
    | .error fault => fault
    | .ok _ => wrong found
  let number (negative : Bool) (rest : List Char) : Fault :=
    match readNumber negative rest with
    | .error fault => fault
    | .ok (.integer value, _) => wrong (.integer value)
    | .ok (.real digits, _) => wrong (.real digits)
  match cs with
  | [] => .endOfText
  | 'n' :: rest => literal "ull" .null rest
  | 't' :: rest => literal "rue" (.boolean true) rest
  | 'f' :: rest => literal "alse" (.boolean false) rest
  | '-' :: rest => number true rest
  | '"' :: rest =>
    match readString rest with
    | .error fault => fault
    | .ok (text, _) => wrong (.text text)
  | '[' :: _ => wrong .sequence
  | '\x7b' :: _ => wrong .map
  | c :: rest => if c.isDigit then number false (c :: rest) else .malformed

def text : Reader String := fun cs =>
  match skipSpace cs with
  | '"' :: rest => readString rest
  | cs => .error (mismatch "a string" cs)

def flag : Reader Bool := fun cs =>
  match skipSpace cs with
  | 't' :: rest => do .ok (true, ← afterLetters "rue".toList rest)
  | 'f' :: rest => do .ok (false, ← afterLetters "alse".toList rest)
  | cs => .error (mismatch "a boolean" cs)

/-- Null, where nothing but null is expected. -/
def unit : Reader Unit := fun cs =>
  match skipSpace cs with
  | 'n' :: rest => do .ok ((), ← afterLetters "ull".toList rest)
  | cs => .error (mismatch "unit" cs)

/-- Null, or what `read` accepts. -/
def optional (read : Reader α) : Reader (Option α) := fun cs =>
  match skipSpace cs with
  | 'n' :: rest => do .ok (none, ← afterLetters "ull".toList rest)
  | cs => do
    let (value, rest) ← read cs
    .ok (some value, rest)

def items (read : Reader α) : Nat → Bool → List Char → Except Fault (List α × List Char)
  | 0, _, _ => .error .malformed
  | fuel + 1, first, cs => do
    let (more, rest) ← nextItem first cs
    if more then
      let (value, rest) ← read rest
      let (values, rest) ← items read fuel false rest
      .ok (value :: values, rest)
    else .ok ([], rest)

def list (read : Reader α) : Reader (List α) := fun cs =>
  match skipSpace cs with
  | '[' :: rest => items read (rest.length + 1) true rest
  | cs => .error (mismatch "a sequence" cs)

/-- A member of a record of type `α`: its value is read and stored. -/
structure Member (α : Type) where
  name : String
  required : Bool
  store : α → Reader α

/-- A member that has to be there. -/
def needed (name : String) (read : Reader β) (set : α → β → α) : Member α :=
  ⟨name, true, fun record cs => do
    let (value, rest) ← read cs
    .ok (set record value, rest)⟩

/-- A member that may be left out. -/
def spare (name : String) (read : Reader β) (set : α → β → α) : Member α :=
  { needed name read set with required := false }

/-- Members of an object in any order. Unknown keys are passed over. -/
def members (known : List (Member α)) :
    Nat → Bool → List String → α → List Char → Except Fault ((List String × α) × List Char)
  | 0, _, _, _, _ => .error .malformed
  | fuel + 1, first, seen, record, cs => do
    let (more, rest) ← nextKey first cs
    if more then
      let (name, rest) ← readString rest
      match known.find? (·.name == name) with
      | none => members known fuel false seen record (← skip (← afterColon rest))
      | some member =>
        if seen.contains name then .error (.shape (.duplicate name))
        else
          let (record, rest) ← member.store record (← afterColon rest)
          members known fuel false (name :: seen) record rest
    else .ok ((seen, record), rest)

/-- The members of an array that stand for those of a record, in order. Only members at the end
that may be left out can be missing. -/
def positions (expected : String) : Nat → List (Member α) → α → List Char →
    Except Fault (α × List Char)
  | _, [], record, cs =>
    match skipSpace cs with
    | [] => .error .endOfText
    | ']' :: rest => .ok (record, rest)
    | _ => .error .malformed
  | count, member :: rest, record, cs => do
    let (more, cs) ← nextItem (count == 0) cs
    if more then
      let (record, cs) ← member.store record cs
      positions expected (count + 1) rest record cs
    else match (member :: rest).findIdx? (·.required) with
      | some skipped => .error (.shape (.length (count + skipped) expected))
      | none => .ok (record, cs)

/-- A record that starts as `blank`. The first required member that is missing is reported. -/
def record (title : String) (blank : α) (known : List (Member α)) : Reader α := fun cs =>
  match skipSpace cs with
  | '\x7b' :: rest => do
    let ((seen, value), rest) ← members known (rest.length + 1) true [] blank rest
    match known.find? fun member => member.required && !seen.contains member.name with
    | some member => .error (.shape (.missing member.name))
    | none => .ok (value, rest)
  | '[' :: rest => positions s!"struct {title} with {known.length} elements" 0 known blank rest
  | cs => .error (mismatch s!"struct {title}" cs)

inductive Payload (α : Type) where
  | none (value : α)
  | one (read : Reader α)

structure Variant (α : Type) where
  name : String
  payload : Payload α

/-- The variant of a name, which is looked up as soon as the name has been read. -/
def variant (known : List (Variant α)) (name : String) : Except Fault (Payload α) :=
  match known.find? (·.name == name) with
  | some variant => .ok variant.payload
  | none => .error (.shape (.variant name (known.map (·.name))))

/-- A variant without payload is its name, or an object with its name and null; one with a payload
is an object with its name and the payload. -/
def choice (known : List (Variant α)) : Reader α := fun cs =>
  match skipSpace cs with
  | [] => .error .endOfText
  | '"' :: rest => do
    let (name, rest) ← readString rest
    match ← variant known name with
    | .none value => .ok (value, rest)
    | .one _ => .error (.shape (.type .unitVariant "newtype variant"))
  | '\x7b' :: rest => do
    let (name, rest) ← match skipSpace rest with
      | [] => .error .endOfText
      | '"' :: rest => readString rest
      | _ => .error .malformed
    let payload ← variant known name
    let rest ← afterColon rest
    let (value, rest) ← match payload with
      | .none value => do
        let ((), rest) ← unit rest
        pure (value, rest)
      | .one read => read rest
    match skipSpace rest with
    | [] => .error .endOfText
    | '\x7d' :: rest => .ok (value, rest)
    | _ => .error .malformed
  | _ => .error .malformed

mutual

/-- Any value. `room` bounds how deep arrays and objects may nest. -/
def anyValue : Nat → Nat → List Char → Except Fault (Json × List Char)
  | 0, _, _ => .error .malformed
  | fuel + 1, room, cs =>
    match skipSpace cs with
    | [] => .error .endOfText
    | 'n' :: rest => do .ok (.null, ← afterLetters "ull".toList rest)
    | 't' :: rest => do .ok (.boolean true, ← afterLetters "rue".toList rest)
    | 'f' :: rest => do .ok (.boolean false, ← afterLetters "alse".toList rest)
    | '-' :: rest => do
      let (value, rest) ← readNumber true rest
      .ok (.number value, rest)
    | '"' :: rest => do
      let (value, rest) ← readString rest
      .ok (.string value, rest)
    | '[' :: rest =>
      if room ≤ 1 then .error .malformed
      else do
        let (values, rest) ← anyItems fuel (room - 1) true rest
        .ok (.array values, rest)
    | '\x7b' :: rest =>
      if room ≤ 1 then .error .malformed
      else do
        let (values, rest) ← anyMembers fuel (room - 1) true rest
        .ok (.object values, rest)
    | c :: rest =>
      if c.isDigit then do
        let (value, rest) ← readNumber false (c :: rest)
        .ok (.number value, rest)
      else .error .malformed

def anyItems : Nat → Nat → Bool → List Char → Except Fault (List Json × List Char)
  | 0, _, _, _ => .error .malformed
  | fuel + 1, room, first, cs => do
    let (more, rest) ← nextItem first cs
    if more then
      let (value, rest) ← anyValue fuel room rest
      let (values, rest) ← anyItems fuel room false rest
      .ok (value :: values, rest)
    else .ok ([], rest)

def anyMembers : Nat → Nat → Bool → List Char → Except Fault (List (String × Json) × List Char)
  | 0, _, _, _ => .error .malformed
  | fuel + 1, room, first, cs => do
    let (more, rest) ← nextKey first cs
    if more then
      let (name, rest) ← readString rest
      let (value, rest) ← anyValue fuel room (← afterColon rest)
      let (values, rest) ← anyMembers fuel room false rest
      .ok ((name, value) :: values, rest)
    else .ok ([], rest)

end

/-- Any value nested less than `room` levels deep. -/
def any (room : Nat) : Reader Json := fun cs => anyValue (2 * cs.length + 2) room cs

/-- What a value is called when it stands in a wrong place. -/
def found : Json → Found
  | .null => .null
  | .boolean value => .boolean value
  | .number (.integer value) => .integer value
  | .number (.real digits) => .real digits
  | .string value => .text value
  | .array _ => .sequence
  | .object _ => .map

/-- A document is one value and blanks around it. -/
def document (read : Reader α) (source : String) : Except Fault α := do
  let (value, rest) ← read source.toList
  if (skipSpace rest).isEmpty then .ok value else .error .malformed

end NodeModel.Json
