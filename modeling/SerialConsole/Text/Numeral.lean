/-!
# Numerals

A numeral is `0x` and a run of hexadecimal digits, which may be empty, or a run of decimal digits,
which may not.  The run ends at the first character that is no digit of the base; what follows is
not read.  Values are 32 bits wide and wrap around:

    value? "0x1F rest" = some 31
    value? "4294967297" = some 1
    value? "rest" = none
-/

namespace SerialConsole.Text

/-- The value of a character as a digit, letters of either case counting on from ten. -/
def digit? (base : Nat) (c : Char) : Option Nat :=
  let value :=
    if '0' ≤ c ∧ c ≤ '9' then some (c.toNat - '0'.toNat)
    else if 'a' ≤ c ∧ c ≤ 'z' then some (c.toNat - 'a'.toNat + 10)
    else if 'A' ≤ c ∧ c ≤ 'Z' then some (c.toNat - 'A'.toNat + 10)
    else none
  value.filter (· < base)

/-- The digits that the characters open with. -/
def leadingDigits (base : Nat) : List Char → List Nat
  | [] => []
  | c :: cs =>
    match digit? base c with
    | some d => d :: leadingDigits base cs
    | none => []

/-- The number that digits spell, most significant first, in 32 bits. -/
def ofDigits (base : Nat) (digits : List Nat) : UInt32 :=
  digits.foldl (fun acc d => acc * base.toUInt32 + d.toUInt32) 0

/-- The value of the numeral that opens a text, if one does. -/
def value? (s : String) : Option UInt32 :=
  match s.toList with
  | '0' :: 'x' :: cs => some (ofDigits 16 (leadingDigits 16 cs))
  | cs =>
    match leadingDigits 10 cs with
    | [] => none
    | digits => some (ofDigits 10 digits)

end SerialConsole.Text
