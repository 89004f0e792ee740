import Netscribe.Text.Category

/-!
# Quoted text in messages

A message shows a name between double quotes. Printable characters stand for themselves, the quote
and the backslash are escaped, the seven usual control characters have a letter, and every other
character is written by its code point in hexadecimal.
-/

namespace Netscribe.Quoted

def hexDigit (n : Nat) : Char := if n < 10 then Char.ofNat (48 + n) else Char.ofNat (87 + n)

/-- The last `width` hexadecimal digits of `n`, most significant first. -/
def hex : Nat → Nat → List Char
  | 0, _ => []
  | width + 1, n => hex width (n / 16) ++ [hexDigit (n % 16)]

/-- The letter that stands for a control character after a backslash. -/
def controlLetter? (c : Char) : Option Char :=
  match c.toNat with
  | 7 => some 'a'
  | 8 => some 'b'
  | 9 => some 't'
  | 10 => some 'n'
  | 11 => some 'v'
  | 12 => some 'f'
  | 13 => some 'r'
  | _ => none

def escape (c : Char) : List Char :=
  if c = '"' ∨ c = '\\' then ['\\', c]
  else if Category.isPrintable c then [c]
  else match controlLetter? c with
    | some l => ['\\', l]
    | none =>
      let n := c.toNat
      if n < 0x80 then '\\' :: 'x' :: hex 2 n
      else if n < 0x10000 then '\\' :: 'u' :: hex 4 n
      else '\\' :: 'U' :: hex 8 n

end Netscribe.Quoted

namespace Netscribe

def quoted (s : String) : String := String.ofList ('"' :: s.toList.flatMap Quoted.escape ++ ['"'])

end Netscribe
