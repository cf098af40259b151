import Mathlib.Tactic.Common
import NodeModel.Json.Lexeme

/-! Quoted strings: what the writer escapes, the reader puts back. -/
namespace NodeModel.Json

def addChar (c : Char) (read : List Char × List Char) : List Char × List Char :=
  (c :: read.1,read.2)

/-- The characters of an escape are passed over. -/
theorem readChars_passed (escaped cs : List Char) :
    readChars escaped.length (escaped ++ cs) = readChars 0 cs := by
  induction escaped with
  | nil => rfl
  | cons c escaped ih => simpa [readChars] using ih

theorem readChars_escape {escaped cs : List Char} {c : Char}
    (read : escape (escaped ++ cs) = .ok (c,escaped.length)) :
    readChars 0 ('\\' :: escaped ++ cs) = (readChars 0 cs).map (addChar c) := by
  have passed := readChars_passed escaped cs
  rw [List.cons_append,readChars]
  simp only [Nat.lt_irrefl,if_false,Char.reduceEq,if_true,read,bind,Except.bind,passed]
  cases readChars 0 cs <;> rfl

theorem readChars_plain {c : Char} (cs : List Char) (quote : c ≠ '"') (backslash : c ≠ '\\')
    (printed : ¬ c.toNat < 0x20) :
    readChars 0 (c :: cs) = (readChars 0 cs).map (addChar c) := by
  rw [readChars]
  simp only [Nat.lt_irrefl,if_false,quote,backslash,printed]
  cases readChars 0 cs <;> rfl

/-- The digits of a control character are read back as its code. -/
theorem codeUnit_control (code : Nat) (control : code < 0x20) (cs : List Char) :
    codeUnit ('0' :: '0' :: Nat.digitChar (code / 16) :: Nat.digitChar (code % 16) :: cs) =
      .ok code := by
  have digits : ∀ code < 0x20,
      ['0','0',Nat.digitChar (code / 16),Nat.digitChar (code % 16)].mapM hexValue? =
        some [0,0,code / 16,code % 16] := by decide
  have bytes : ∀ code < 0x20,
      byteCount ['0','0',Nat.digitChar (code / 16),Nat.digitChar (code % 16)] = 4 := by decide
  have value : ((0 * 16 + 0) * 16 + code / 16) * 16 + code % 16 = code := by omega
  simp only [codeUnit,List.take_succ_cons,List.take_zero,bytes code control,digits code control,
    Nat.lt_irrefl,if_false,value]

theorem readChars_escapeChar (c : Char) (cs : List Char) :
    readChars 0 (escapeChar c ++ cs) = (readChars 0 cs).map (addChar c) := by
  -- The short escapes for backspace and form feed are chosen by code, the others by character.
  have code {n : Nat} (same : c.toNat = n) : Char.ofNat n = c := by rw [← same,Char.ofNat_toNat]
  unfold escapeChar
  split_ifs with quote backslash line back tab eight twelve control
  · exact readChars_escape (by rw [quote]; rfl)
  · exact readChars_escape (by rw [backslash]; rfl)
  · exact readChars_escape (by rw [line]; rfl)
  · exact readChars_escape (by rw [back]; rfl)
  · exact readChars_escape (by rw [tab]; rfl)
  · exact readChars_escape (by rw [← code eight]; rfl)
  · exact readChars_escape (by rw [← code twelve]; rfl)
  · refine readChars_escape ?_
    have unit := codeUnit_control c.toNat control cs
    -- A control character is never half of a surrogate pair.
    have low : ¬ 0xDC00 ≤ c.toNat := by omega
    have high : ¬ 0xD800 ≤ c.toNat := by omega
    simp [escape,unit,low,high,bind,Except.bind]
  · exact readChars_plain cs quote backslash control

theorem readChars_quoted (text rest : List Char) :
    readChars 0 (text.flatMap escapeChar ++ '"' :: rest) = .ok (text,rest) := by
  induction text with
  | nil => rfl
  | cons c text ih =>
    rw [List.flatMap_cons,List.append_assoc,readChars_escapeChar,ih]
    rfl

theorem readString_quoted (text : String) (rest : List Char) :
    readString (text.toList.flatMap escapeChar ++ '"' :: rest) = .ok (text,rest) := by
  rw [readString,readChars_quoted]
  exact congrArg (fun read => Except.ok (read,rest)) String.ofList_toList

end NodeModel.Json
