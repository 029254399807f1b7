import DocQuery.Text.Blank
import DocQuery.Text.GraphemeBase

/-!
# Inspected strings

A string as it is shown to a person who inspects a value: between quotation marks, with the mark, the
backslash and every character escaped that would not be seen. A character without a letter of its own
is shown by its code in hexadecimal digits, as few as it needs.
-/

set_option autoImplicit false

namespace DocQuery.Text

/-- A hexadecimal digit below sixteen. -/
def hexDigit (d : Nat) : Char := if d < 10 then Char.ofNat (48 + d) else Char.ofNat (87 + d)

/-- The hexadecimal digits of a number, without leading zeros. -/
def hexDigits (n : Nat) : List Char :=
  if n < 16 then [hexDigit n] else hexDigits (n / 16) ++ [hexDigit (n % 16)]

/-- The character is shown as it is: it is seen on its own, and no blank but the ordinary one. -/
def isShown (c : Char) : Bool := c == ' ' || isGraphemeBase c && !isBlank c

/-- A character as it is shown. -/
def inspectChar (c : Char) : List Char :=
  if c = '"' then ['\\', '"']
  else if c = '\\' then ['\\', '\\']
  else if c = '\n' then ['\\', 'n']
  else if c = '\r' then ['\\', 'r']
  else if c = '\t' then ['\\', 't']
  else if c.toNat = 0 then ['\\', '0']
  else if isShown c then [c]
  else '\\' :: 'u' :: '\x7b' :: hexDigits c.toNat ++ ['\x7d']

/-- A string as it is shown. -/
def inspect (s : String) : String :=
  String.ofList ('"' :: s.toList.flatMap inspectChar ++ ['"'])

end DocQuery.Text
