import SerialConsole.Text.Visible

/-!
# Quoted texts

A quoted text stands between double quotes and shows every character.  A visible character stands
for itself, except the quote and the backslash; of the others, four have a letter of their own, and
the rest are written by their code point in lower-case hexadecimal digits.

    quoted "a\tb" = "\"a\\tb\""
-/

namespace SerialConsole.Text

/-- How a character is written between quotes. -/
def escaped (c : Char) : List Char :=
  if c = '\x00' then ['\\', '0']
  else if c = '\t' then ['\\', 't']
  else if c = '\r' then ['\\', 'r']
  else if c = '\n' then ['\\', 'n']
  else if c = '"' then ['\\', '"']
  else if c = '\\' then ['\\', '\\']
  else if isVisible c then [c]
  else ['\\', 'u', '\x7b'] ++ Nat.toDigits 16 c.toNat ++ ['\x7d']

/-- A text between quotes. -/
def quoted (s : String) : String :=
  String.ofList ('"' :: s.toList.flatMap escaped ++ ['"'])

end SerialConsole.Text
