import Squirrel.Text.CharClass

/-! Integers written in decimal. -/

namespace Squirrel.Text

def maxDigits : Nat := 4300

/-- White space that may surround a numeral: the separators U+001C to U+001F are not part of it. -/
def isPadding (c : Char) : Bool :=
  isBlank c && !(0x1c ≤ c.toNat && c.toNat ≤ 0x1f)

def trimPadding (text : List Char) : List Char :=
  ((text.dropWhile isPadding).reverse.dropWhile isPadding).reverse

/-- Decimal digits; a single underscore may stand between two of them. -/
def digits? : List Char → Option (List Nat)
  | [] => none
  | [c] => (decimalDigit? c).map ([·])
  | c :: '_' :: rest => do return (← decimalDigit? c) :: (← digits? rest)
  | c :: rest => do return (← decimalDigit? c) :: (← digits? rest)

def natural? (text : List Char) : Option Nat := do
  let digits ← digits? text
  if digits.length ≤ maxDigits then
    some (digits.foldl (fun value digit => 10 * value + digit) 0)
  else
    none

/-- A signed numeral with white space around it. -/
def integer? (text : String) : Option Int :=
  match trimPadding text.toList with
  | '-' :: rest => (natural? rest).map fun value => -(value : Int)
  | '+' :: rest => (natural? rest).map Int.ofNat
  | rest => (natural? rest).map Int.ofNat

end Squirrel.Text
