import Mathlib.Algebra.Group.Nat.Defs
/-!
# The text functions both front ends use

Rust's formats `{:08x}`, `{:04}` and `{:?}`, `str::trim` and
`u32::from_str_radix` at radix 16.
-/

namespace Perilus

/-- The format `{:08x}`. -/
def hex08 (x : BitVec 32) : String :=
  let digits := Nat.toDigits 16 x.toNat
  String.ofList (List.replicate (8 - digits.length) '0' ++ digits)

/-- The format `{:0w}` of a number, for a width `w`. -/
def decPad (width n : ℕ) : String :=
  let digits := Nat.toDigits 10 n
  String.ofList (List.replicate (width - digits.length) '0' ++ digits)

/-- A character as the format `{:?}` of a string prints it. From U+00A0 up
Rust also escapes what its tables call unprintable or a grapheme extender;
those stay as they are here. -/
def escapeDebug (c : Char) : List Char :=
  if c = '\x00' then ['\\', '0']
  else if c = '\t' then ['\\', 't']
  else if c = '\n' then ['\\', 'n']
  else if c = '\r' then ['\\', 'r']
  else if c = '"' then ['\\', '"']
  else if c = '\\' then ['\\', '\\']
  else if c.toNat < 0x20 ∨ 0x7f ≤ c.toNat ∧ c.toNat < 0xa0 then
    ['\\', 'u', '\x7b'] ++ Nat.toDigits 16 c.toNat ++ ['\x7d']
  else [c]

/-- The format `{:?}` of a string. -/
def debugStr (s : String) : String :=
  String.ofList ('"' :: s.toList.flatMap escapeDebug ++ ['"'])

/-- The Unicode property `White_Space`. -/
def isWhitespace (c : Char) : Bool :=
  let n := c.toNat
  (9 ≤ n && n ≤ 13) || n == 0x20 || n == 0x85 || n == 0xa0 || n == 0x1680 ||
    (0x2000 ≤ n && n ≤ 0x200a) || n == 0x2028 || n == 0x2029 || n == 0x202f || n == 0x205f ||
    n == 0x3000

/-- `str::trim`. -/
def trim (s : List Char) : List Char :=
  ((s.dropWhile isWhitespace).reverse.dropWhile isWhitespace).reverse

/-- `char::to_digit` at radix 16. -/
def toDigit16 (c : Char) : Option ℕ :=
  if '0' ≤ c ∧ c ≤ '9' then some (c.toNat - '0'.toNat)
  else if 'a' ≤ c ∧ c ≤ 'f' then some (c.toNat - 'a'.toNat + 10)
  else if 'A' ≤ c ∧ c ≤ 'F' then some (c.toNat - 'A'.toNat + 10)
  else none

/-- `u32::from_str_radix` at radix 16: at least one digit, after a sign
that can only be a plus, and no overflow. -/
def fromStrRadix16 (s : List Char) : Option (BitVec 32) :=
  let digits := match s with
    | '+' :: digits => digits
    | _ => s
  if digits = [] then none
  else
    (digits.foldlM (fun value c => do
      let value := value * 16 + (← toDigit16 c)
      if value < 2 ^ 32 then some value else none) 0).map (BitVec.ofNat 32)

end Perilus
