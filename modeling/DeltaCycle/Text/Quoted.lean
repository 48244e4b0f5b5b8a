import DeltaCycle.Text.Shown

/-!
# Quoted texts

A text between double quotes, with everything escaped that would not show or could be
taken for a quote: short escapes for the usual control characters, and code points in
braces for all other characters that do not show.
-/

set_option autoImplicit false

namespace DeltaCycle.Text

/-- A character by its code point in braces. -/
def codePointEscape (c : Char) : List Char :=
  ['\\', 'u', '\x7b'] ++ Nat.toDigits 16 c.toNat ++ ['\x7d']

/-- A character between quotes. -/
def quotedChar (c : Char) : List Char :=
  if c = '"' then ['\\', '"']
  else if c = '\\' then ['\\', '\\']
  else if c = '\n' then ['\\', 'n']
  else if c = '\r' then ['\\', 'r']
  else if c = '\t' then ['\\', 't']
  else if c.toNat = 0 then ['\\', '0']
  else if 0x20 ≤ c.toNat ∧ c.toNat ≤ 0x7E then [c]
  else if c.toNat ≤ 0x7F then codePointEscape c
  else if isShown c then [c]
  else codePointEscape c

/-- The text between quotes. -/
def quoted (s : String) : String :=
  String.ofList ('"' :: (s.toList.flatMap quotedChar ++ ['"']))

end DeltaCycle.Text
