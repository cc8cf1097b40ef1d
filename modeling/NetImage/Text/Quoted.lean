import NetImage.Text.Printable
import NetImage.Text.Rune

/-!
# NetImage.Text.Quoted

A byte string between double quotes, with escapes for what cannot be shown. A quote and a backslash
are written behind a backslash, seven control characters have a letter of their own, a byte that is
not part of UTF-8 and any other control character is `\xHH`, and a code point that is not printable is
`\uHHHH` or `\UHHHHHHHH`.
-/

namespace NetImage

namespace Quoted

/-- The letter behind the backslash, for the control characters that have one. -/
def controlLetter : Nat → Option UInt8
  | 0x07 => some 0x61
  | 0x08 => some 0x62
  | 0x0c => some 0x66
  | 0x0a => some 0x6e
  | 0x0d => some 0x72
  | 0x09 => some 0x74
  | 0x0b => some 0x76
  | _ => none

/-- One rune as it stands between the quotes. -/
def rune (r : Rune) : Bytes :=
  if r.isMalformed then ascii "\\x" ++ r.bytes.flatMap fun b => hexDigits 2 b.toNat
  else if r.code = 0x22 ∨ r.code = 0x5c then 0x5c :: r.bytes
  else if isPrintable r.code then r.bytes
  else match controlLetter r.code with
    | some letter => [0x5c, letter]
    | none =>
      if r.code < 0x20 ∨ r.code = 0x7f then ascii "\\x" ++ hexDigits 2 r.code
      else if r.code < 0x10000 then ascii "\\u" ++ hexDigits 4 r.code
      else ascii "\\U" ++ hexDigits 8 r.code

end Quoted

/-- A byte string between double quotes. -/
def quote (s : Bytes) : Bytes := 0x22 :: (runes s).flatMap Quoted.rune ++ [0x22]

end NetImage
