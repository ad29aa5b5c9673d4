/-!
# Text that a terminal cannot obey

Log lines quote text that a program brought along, such as the names of its
procedures.  In escaped text every control character with which a terminal is
driven stands as its code.  Blanks, tabs, line breaks and the remaining
control characters stay as they are, and so does the backslash: escaped text
is for reading, and is not read back.
-/

namespace Vax.Text

/-- Whether a character drives a terminal: bell, backspace, form feed, escape,
delete, or one of U+0080 to U+009F. -/
def isTerminalControl (c : Char) : Bool :=
  [0x07, 0x08, 0x0c, 0x1b, 0x7f].contains c.toNat || (0x80 ≤ c.toNat && c.toNat ≤ 0x9f)

/-- A control character as its code, two hexadecimal digits in ASCII and
digits in braces beyond. -/
def controlCode (c : Char) : List Char :=
  let digits := Nat.toDigits 16 c.toNat
  if c.toNat < 0x80 then '\\' :: 'x' :: digits.leftpad 2 '0'
  else '\\' :: 'u' :: '{' :: (digits ++ ['}'])

/-- A text with every character that drives a terminal as its code. -/
def escaped (text : String) : String :=
  String.ofList (text.toList.flatMap fun c => if isTerminalControl c then controlCode c else [c])

private theorem isTerminalControl_lt {c : Char} (h : isTerminalControl c = true) :
    c.toNat < 0xa0 := by
  simp [isTerminalControl] at h
  omega

private theorem controlCode_below :
    ((List.range 0xa0).all fun n =>
      (controlCode (Char.ofNat n)).all fun d => !isTerminalControl d) = true := by
  decide +kernel

/-- A code is made of characters that leave a terminal alone. -/
theorem isTerminalControl_of_mem_controlCode {c d : Char} (h : isTerminalControl c = true)
    (hd : d ∈ controlCode c) : isTerminalControl d = false := by
  rw [← Char.ofNat_toNat c] at hd
  have hcode := List.all_eq_true.mp controlCode_below c.toNat
    (List.mem_range.mpr (isTerminalControl_lt h))
  have hchar := List.all_eq_true.mp hcode d hd
  simpa using hchar

/-- Nothing that drives a terminal is left in escaped text. -/
theorem isTerminalControl_of_mem_escaped {text : String} {d : Char}
    (hd : d ∈ (escaped text).toList) : isTerminalControl d = false := by
  simp only [escaped, String.toList_ofList, List.mem_flatMap] at hd
  obtain ⟨c, -, hd⟩ := hd
  cases hc : isTerminalControl c with
  | true =>
    rw [hc, if_pos rfl] at hd
    exact isTerminalControl_of_mem_controlCode hc hd
  | false =>
    rw [hc, if_neg (by simp), List.mem_singleton] at hd
    rw [hd, hc]

end Vax.Text
